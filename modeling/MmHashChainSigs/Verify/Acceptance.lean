import MmHashChainSigs.Verify.Grammar

/-!
# The verifier accepts exactly the grammar

The context after a run without errors is tied to the items read so far: one
line extends both sides, and a line that the grammar refuses leaves an error.
-/

namespace MmHashChainSigs.Verify

open MmHashChainSigs.Foundation
open MmHashChainSigs.Common

variable {ossl : OpenSSL}

theorem eq_ofNat_iff {x : UInt64} {n : Nat} (h : n < 2 ^ 64) :
    x = UInt64.ofNat n ↔ x.toNat = n := by
  rw [← UInt64.toNat_inj, UInt64.toNat_ofNat_of_lt' h]

theorem ofNat_succ (n : Nat) : UInt64.ofNat (n + 1) = UInt64.ofNat n + 1 :=
  UInt64.ofNat_add n 1

/-! ## One open segment -/

structure Open (ctx : VerifierCtx ossl) (alg : HcsHashAlg)
    (segment : List Item) : Prop where
  state : ctx.state = .processing
  alg_eq : ctx.hashAlg = alg
  width : ctx.hashLen = hcsHashLen alg
  locked : ctx.haveHashAlg = true
  hash : ctx.chainHash = segmentHash ossl alg segment
  next : ctx.nextSeq = UInt64.ofNat (segment.length + 1)
  signed : ctx.lastSignedSeq = UInt64.ofNat (lastSig segment)

theorem nextHash_of_open {ctx : VerifierCtx ossl} {alg : HcsHashAlg}
    {segment : List Item} (h : Open ctx alg segment) (item : Item) :
    nextHash ctx item.payload = segmentHash ossl alg (segment ++ [item]) := by
  have hlen : (segmentHash ossl alg segment).length = hcsHashLen alg :=
    payloadHash_length alg _
  rw [segmentHash_concat, nextHash, h.alg_eq, h.hash, h.next, ← hlen,
    List.take_length]

theorem hashAccepts_iff {ctx : VerifierCtx ossl} {alg : HcsHashAlg}
    {segment : List Item} (h : Open ctx alg segment)
    (hlen : segment.length + 1 < 2 ^ 64) {faults : VerifyFaults}
    (hruns : faults.hashChain = false) (item : Item)
    (hwidth : item.record.chainHashLen = item.record.chainHash.length) :
    HashAccepts faults ctx item.record item.payload ↔
      item.record.seq.toNat = segment.length + 1 ∧
        item.record.chainHash = segmentHash ossl alg (segment ++ [item]) := by
  have hnext := nextHash_of_open h item
  constructor
  · intro haccepts
    refine ⟨?_, ?_⟩
    · rw [haccepts.fits.1, h.next, UInt64.toNat_ofNat_of_lt' hlen]
    · rw [← haccepts.hash, hnext]
  · rintro ⟨hseq, hhash⟩
    refine ⟨⟨?_, ?_⟩, hruns, ?_⟩
    · rw [h.next]
      exact (eq_ofNat_iff hlen).mpr hseq
    · rw [hwidth, hhash, h.width]
      exact payloadHash_length alg _
    · rw [hnext, hhash]

theorem open_advance {ctx : VerifierCtx ossl} {alg : HcsHashAlg}
    {segment : List Item} (h : Open ctx alg segment) {item : Item}
    (hhash : item.record.chainHash = segmentHash ossl alg (segment ++ [item])) :
    (advance ctx item.record).chainHash =
        segmentHash ossl alg (segment ++ [item]) ∧
      (advance ctx item.record).nextSeq =
        UInt64.ofNat ((segment ++ [item]).length + 1) := by
  refine ⟨hhash, ?_⟩
  rw [List.length_append, List.length_singleton, ofNat_succ, ← h.next]
  rfl

theorem open_of_not_sig {ctx : VerifierCtx ossl} {alg : HcsHashAlg}
    {segment : List Item} (h : Open ctx alg segment) {item : Item}
    (hhash : item.record.chainHash = segmentHash ossl alg (segment ++ [item]))
    (hsig : ¬ IsSig item) :
    Open (advance ctx item.record) alg (segment ++ [item]) where
  state := h.state
  alg_eq := h.alg_eq
  width := h.width
  locked := h.locked
  hash := (open_advance h hhash).1
  next := (open_advance h hhash).2
  signed := by
    rw [lastSig_concat_of_not_sig hsig]
    exact h.signed

theorem open_of_sig {ctx : VerifierCtx ossl} {alg : HcsHashAlg}
    {segment : List Item} (h : Open ctx alg segment) {item : Item}
    (hhash : item.record.chainHash = segmentHash ossl alg (segment ++ [item]))
    (hsig : IsSig item)
    (hto : item.record.seqTo = UInt64.ofNat (segment.length + 1)) :
    Open (signed (advance ctx item.record) item.record) alg
      (segment ++ [item]) where
  state := h.state
  alg_eq := h.alg_eq
  width := h.width
  locked := h.locked
  hash := (open_advance h hhash).1
  next := (open_advance h hhash).2
  signed := by
    rw [lastSig_concat_of_sig hsig]
    exact hto

theorem unsignedTail_of_open {ctx : VerifierCtx ossl} {alg : HcsHashAlg}
    {segment : List Item} (h : Open ctx alg segment)
    (hlen : segment.length < 2 ^ 64) (hne : segment ≠ []) :
    unsignedTail ctx = 0 ↔ EndsSigned segment := by
  have hle := lastSig_le segment
  rw [endsSigned_iff hne, unsignedTail, h.next, h.signed, ofNat_succ,
    UInt64.add_sub_cancel, sub_eq_zero,
    eq_ofNat_iff (by omega), UInt64.toNat_ofNat_of_lt' hlen]
  exact eq_comm

/-! ## Appending one item to a log -/

section Log

variable {key : ossl.Pkey} {fp : Bytes} {strict : Bool} {alg : HcsHashAlg}

theorem logPrefix_nil : LogPrefix ossl key fp strict alg [] := by
  constructor <;> simp

theorem logPrefix_extend {segments : List (List Item)}
    {segment : List Item} {item : Item} :
    LogPrefix ossl key fp strict alg (segments ++ [segment ++ [item]]) ↔
      LogPrefix ossl key fp strict alg (segments ++ [segment]) ∧
        ItemOk ossl key fp alg segment item := by
  unfold LogPrefix
  simp only [List.mem_append, List.mem_singleton, or_imp, forall_and,
    forall_eq, List.dropLast_concat, throughout_concat]
  tauto

theorem logPrefix_open {segments : List (List Item)} {item : Item} :
    LogPrefix ossl key fp strict alg (segments ++ [[item]]) ↔
      (∀ segment ∈ segments, Throughout (ItemOk ossl key fp alg) segment) ∧
        (strict = true → ∀ segment ∈ segments, EndsSigned segment) ∧
        ItemOk ossl key fp alg [] item := by
  have hsingle : Throughout (ItemOk ossl key fp alg) [item] ↔
      ItemOk ossl key fp alg [] item := by
    rw [← List.nil_append [item], throughout_concat]
    simp
  unfold LogPrefix
  simp only [List.mem_append, List.mem_singleton, or_imp, forall_and,
    forall_eq, List.dropLast_concat, hsingle]
  tauto

theorem alg_unique {alg' : HcsHashAlg} {segment : List Item}
    (hne : segment ≠ [])
    (h : Throughout (ItemOk ossl key fp alg) segment)
    (h' : Throughout (ItemOk ossl key fp alg') segment) : alg = alg' := by
  obtain ⟨item, rest, rfl⟩ := List.exists_cons_of_ne_nil hne
  have hhash := (h [] item rest rfl).hash
  rw [(h' [] item rest rfl).hash] at hhash
  apply hcsHashLen_injective
  have hlen := congrArg List.length hhash
  simp only [segmentHash, payloadHash_length] at hlen
  exact hlen.symm

end Log

/-! ## The context and the items -/

/-- A log so far: it may still be extended to one the verifier accepts. -/
def LogSoFar (key : ossl.Pkey) (fp : Bytes) (strict : Bool)
    (items : List Item) : Prop :=
  ∃ alg segments, Splits IsInit items segments ∧
    LogPrefix ossl key fp strict alg segments

structure Tracks (key : ossl.Pkey) (fp : Bytes) (strict : Bool)
    (ctx : VerifierCtx ossl) (items : List Item) : Prop where
  errors : ctx.errors = []
  pubkey : ctx.pubkey = some key
  fp_eq : ctx.pubkeyFp = fp
  havePubkey : ctx.havePubkey = true
  store : ctx.trustStore = none
  strict_eq : ctx.strict = strict
  msgCount : ctx.msgCount = UInt64.ofNat items.length
  sigCount : ctx.sigCount = UInt64.ofNat (items.countP (IsSig ·))
  segmentCount : ctx.segmentCount =
    UInt64.ofNat (items.countP fun item => IsInit item ∨ IsContinue item)
  log : (items = [] ∧ ctx.state = .expectInit ∧ ctx.haveHashAlg = false ∧
      ctx.lastSignedSeq = 0) ∨
    ∃ alg segments segment, Splits IsInit items (segments ++ [segment]) ∧
      LogPrefix ossl key fp strict alg (segments ++ [segment]) ∧
      Open ctx alg segment

section Step

variable {key : ossl.Pkey} {fp : Bytes} {strict : Bool}
  {ctx ctx' : VerifierCtx ossl} {items : List Item} {item : Item}

theorem tracks_keyedCtx : Tracks key fp strict (keyedCtx strict key fp) [] :=
  ⟨rfl, rfl, rfl, rfl, rfl, rfl, rfl, rfl, rfl, .inl ⟨rfl, rfl, rfl, rfl⟩⟩

theorem Tracks.live (h : Tracks key fp strict ctx items) : Live ctx := by
  rcases h.log with ⟨-, hstate, -⟩ | ⟨alg, segments, segment, -, -, hopen⟩
  · exact .inl hstate
  · exact .inr hopen.state

theorem Tracks.logSoFar (h : Tracks key fp strict ctx items) :
    LogSoFar key fp strict items := by
  rcases h.log with ⟨rfl, -⟩ | ⟨alg, segments, segment, hsplits, hlog, -⟩
  · exact ⟨.sha256, [], splits_nil.mpr rfl, logPrefix_nil⟩
  · exact ⟨alg, _, hsplits, hlog⟩

theorem Tracks.trusted_eq (h : Tracks key fp strict ctx items)
    (faults : VerifyFaults) (certDer : Bytes) :
    trusted faults ctx certDer = some ctx := by
  simp [trusted, h.store]

theorem segment_length_le {segments : List (List Item)} {segment : List Item}
    (h : Splits IsInit items (segments ++ [segment])) :
    segment.length ≤ items.length := by
  rw [h.1, List.flatten_append, List.flatten_singleton, List.length_append]
  omega

end Step

/-! ## What an accepted line changes -/

def itemFor (faults : VerifyFaults) (s : StrippedLine) : Item :=
  ⟨s.sd, s.msg, faults.verify⟩

theorem itemOf_eq_some {call : VerifyCall} {item : Item} :
    itemOf ossl call = some item ↔
      ∃ s, stripLine ossl call.line = some s ∧ s.malformed = false ∧
        item = itemFor call.faults s := by
  simp only [itemOf, Option.bind_eq_some_iff]
  constructor
  · rintro ⟨s, hstrip, h⟩
    split_ifs at h with hmalformed
    exact ⟨s, hstrip, by simpa using hmalformed, (Option.some.inj h).symm⟩
  · rintro ⟨s, hstrip, hmalformed, rfl⟩
    refine ⟨s, hstrip, ?_⟩
    rw [if_neg (by simp [hmalformed])]
    rfl

structure SameTrust (ctx ctx' : VerifierCtx ossl) : Prop where
  errors : ctx'.errors = ctx.errors
  pubkey : ctx'.pubkey = ctx.pubkey
  fp_eq : ctx'.pubkeyFp = ctx.pubkeyFp
  havePubkey : ctx'.havePubkey = ctx.havePubkey
  store : ctx'.trustStore = ctx.trustStore
  strict_eq : ctx'.strict = ctx.strict

theorem sameTrust_segmentStart (ctx : VerifierCtx ossl) (alg : HcsHashAlg) :
    SameTrust ctx (segmentStart ctx alg) := by
  unfold segmentStart lockAlg resetSigned
  split_ifs <;> exact ⟨rfl, rfl, rfl, rfl, rfl, rfl⟩

section Accepted

variable {faults : VerifyFaults} {ctx ctx' : VerifierCtx ossl}
  {s : StrippedLine}

theorem accepts_sameTrust (htrust : trusted faults ctx s.certDer = some ctx)
    (h : Accepts faults ctx s ctx') : SameTrust ctx ctx' := by
  cases h with
  | @init _ ctx₁ alg h =>
      obtain rfl : ctx = ctx₁ := Option.some.inj (htrust.symm.trans h.trust)
      have hsame := sameTrust_segmentStart ctx alg
      exact ⟨hsame.1, hsame.2, hsame.3, hsame.4, hsame.5, hsame.6⟩
  | msg => exact ⟨rfl, rfl, rfl, rfl, rfl, rfl⟩
  | sig => exact ⟨rfl, rfl, rfl, rfl, rfl, rfl⟩
  | «continue» => exact ⟨rfl, rfl, rfl, rfl, rfl, rfl⟩

theorem segmentStart_counts (ctx : VerifierCtx ossl) (alg : HcsHashAlg) :
    (segmentStart ctx alg).msgCount = ctx.msgCount ∧
      (segmentStart ctx alg).sigCount = ctx.sigCount := by
  unfold segmentStart lockAlg resetSigned
  split_ifs <;> exact ⟨rfl, rfl⟩

theorem accepts_counts (htrust : trusted faults ctx s.certDer = some ctx)
    (h : Accepts faults ctx s ctx') :
    ctx'.msgCount = ctx.msgCount + 1 ∧
      ctx'.sigCount =
        ctx.sigCount + (if IsSig (itemFor faults s) then 1 else 0) ∧
      ctx'.segmentCount = ctx.segmentCount +
        (if IsInit (itemFor faults s) ∨ IsContinue (itemFor faults s)
          then 1 else 0) := by
  cases h with
  | @init htype ctx₁ alg h =>
      obtain rfl : ctx = ctx₁ := Option.some.inj (htrust.symm.trans h.trust)
      obtain ⟨hmsg, hsig⟩ := segmentStart_counts ctx alg
      have hsegment : (segmentStart ctx alg).segmentCount =
          ctx.segmentCount + 1 := rfl
      simp [advance, IsSig, IsInit, itemFor, htype, hmsg, hsig, hsegment]
  | msg htype =>
      simp [advance, IsSig, IsInit, IsContinue, itemFor, htype]
  | sig htype =>
      simp [advance, signed, IsSig, IsInit, IsContinue, itemFor, htype]
  | «continue» htype =>
      simp [advance, countSegment, IsSig, IsInit, IsContinue, itemFor, htype]

end Accepted

/-! ## One line inside of a segment -/

section Step

variable {key : ossl.Pkey} {fp : Bytes} {strict : Bool} {alg : HcsHashAlg}
  {faults : VerifyFaults} {ctx ctx' : VerifierCtx ossl} {s : StrippedLine}
  {segment : List Item}

theorem sigOk_of_accepts (hopen : Open ctx alg segment)
    (hlen : segment.length + 1 < 2 ^ 64) (hkey : ctx.pubkey = some key)
    (hhash : s.sd.chainHash =
      segmentHash ossl alg (segment ++ [itemFor faults s]))
    (h : SigAccepts faults (advance ctx s.sd) s.sd) :
    SigOk ossl key (segmentHash ossl alg (segment ++ [itemFor faults s]))
      segment (itemFor faults s) where
  signature := h.hasSignature
  valid := by
    have hvalid := h.valid
    unfold verifySig at hvalid
    have hadvance : (advance ctx s.sd).pubkey = some key := hkey
    rw [hadvance] at hvalid
    rw [← hhash]
    exact hvalid
  from_eq := by
    have hle := lastSig_le segment
    have hfrom : s.sd.seqFrom = ctx.lastSignedSeq + 1 := h.from_eq
    rw [hopen.signed, ← ofNat_succ] at hfrom
    exact (eq_ofNat_iff (by omega)).mp hfrom
  to_eq := by
    have hto : s.sd.seqTo = ctx.nextSeq + 1 - 1 := h.to_eq
    rw [UInt64.add_sub_cancel, hopen.next] at hto
    exact (eq_ofNat_iff hlen).mp hto

theorem sigAccepts_of_ok (hopen : Open ctx alg segment)
    (hlen : segment.length + 1 < 2 ^ 64) (hkey : ctx.pubkey = some key)
    (hhash : s.sd.chainHash =
      segmentHash ossl alg (segment ++ [itemFor faults s]))
    (h : SigOk ossl key
      (segmentHash ossl alg (segment ++ [itemFor faults s])) segment
      (itemFor faults s)) :
    SigAccepts faults (advance ctx s.sd) s.sd where
  hasSignature := h.signature
  valid := by
    have hvalid := h.valid
    have hadvance : (advance ctx s.sd).pubkey = some key := hkey
    unfold verifySig
    rw [hadvance]
    rw [← hhash] at hvalid
    exact hvalid
  from_eq := by
    have hle := lastSig_le segment
    have hfrom := (eq_ofNat_iff (by omega)).mpr h.from_eq
    rw [ofNat_succ, ← hopen.signed] at hfrom
    exact hfrom
  to_eq := by
    have hto := (eq_ofNat_iff hlen).mpr h.to_eq
    rw [← hopen.next] at hto
    have hsub : (advance ctx s.sd).nextSeq - 1 = ctx.nextSeq :=
      UInt64.add_sub_cancel _ _
    exact hto.trans hsub.symm

theorem accepts_extends (hopen : Open ctx alg segment)
    (hlen : segment.length + 1 < 2 ^ 64) (hkey : ctx.pubkey = some key)
    (hfp : ctx.pubkeyFp = fp) (hwidth : s.sd.chainHashLen = s.sd.chainHash.length)
    (hinit : s.sd.type ≠ .init) (h : Accepts faults ctx s ctx') :
    ItemOk ossl key fp alg segment (itemFor faults s) ∧
      Open ctx' alg (segment ++ [itemFor faults s]) := by
  have hash_iff (haccepts : HashAccepts faults ctx s.sd s.msg) :=
    (hashAccepts_iff hopen hlen haccepts.runs (itemFor faults s)
      hwidth).mp haccepts
  cases h with
  | init htype => exact absurd htype hinit
  | msg htype hstate haccepts =>
      obtain ⟨hseq, hhash⟩ := hash_iff haccepts
      have hsig : ¬ IsSig (itemFor faults s) := by
        simp [IsSig, itemFor, htype]
      refine ⟨⟨hseq, hhash, ?_⟩, open_of_not_sig hopen hhash hsig⟩
      simp [TypeOk, itemFor, htype]
  | sig htype hstate haccepts hsig =>
      obtain ⟨hseq, hhash⟩ := hash_iff haccepts
      have hok := sigOk_of_accepts hopen hlen hkey hhash hsig
      refine ⟨⟨hseq, hhash, ?_⟩, open_of_sig hopen hhash htype ?_⟩
      · have hmatch : (itemFor faults s).record.type = .sig := htype
        simp only [TypeOk, hmatch]
        exact hok
      · exact (eq_ofNat_iff hlen).mpr hok.to_eq
  | «continue» htype hstate hagrees haccepts =>
      obtain ⟨hseq, hhash⟩ := hash_iff haccepts
      have hsig : ¬ IsSig (itemFor faults s) := by
        simp [IsSig, itemFor, htype]
      have hcounted : Open (countSegment ctx) alg segment :=
        ⟨hopen.1, hopen.2, hopen.3, hopen.4, hopen.5, hopen.6, hopen.7⟩
      refine ⟨⟨hseq, hhash, ?_⟩, open_of_not_sig hcounted hhash hsig⟩
      simp only [TypeOk, itemFor, htype, ← hfp]
      exact hagrees

theorem accepts_of_itemOk (hopen : Open ctx alg segment)
    (hlen : segment.length + 1 < 2 ^ 64) (hkey : ctx.pubkey = some key)
    (hfp : ctx.pubkeyFp = fp) (hwidth : s.sd.chainHashLen = s.sd.chainHash.length)
    (hruns : faults.hashChain = false) (hinit : s.sd.type ≠ .init)
    (h : ItemOk ossl key fp alg segment (itemFor faults s)) :
    ∃ ctx', Accepts faults ctx s ctx' := by
  have haccepts : HashAccepts faults ctx s.sd s.msg :=
    (hashAccepts_iff hopen hlen hruns (itemFor faults s) hwidth).mpr
      ⟨h.seq, h.hash⟩
  have htypeOk := h.type
  cases htype : s.sd.type with
  | init => exact absurd htype hinit
  | msg => exact ⟨_, .msg htype hopen.state haccepts⟩
  | sig =>
      have hmatch : (itemFor faults s).record.type = .sig := htype
      simp only [TypeOk, hmatch] at htypeOk
      exact ⟨_, .sig htype hopen.state haccepts
        (sigAccepts_of_ok hopen hlen hkey h.hash htypeOk)⟩
  | «continue» =>
      simp only [TypeOk, itemFor, htype, ← hfp] at htypeOk
      exact ⟨_, .continue htype hopen.state htypeOk haccepts⟩
  | other code => simp [TypeOk, itemFor, htype] at htypeOk

/-! ## One line that opens a segment -/

variable {items : List Item}

theorem open_segmentStart (h : Tracks key fp strict ctx items)
    (alg : HcsHashAlg) : Open (segmentStart ctx alg) alg [] where
  state := rfl
  alg_eq := rfl
  width := rfl
  locked := rfl
  hash := rfl
  next := rfl
  signed := by
    have hreset : (resetSigned ctx).lastSignedSeq = 0 := by
      unfold resetSigned
      split_ifs with hstate
      · rfl
      · rcases h.log with ⟨-, -, -, hzero⟩ | ⟨_, _, _, -, -, hopen⟩
        · exact hzero
        · exact absurd hopen.state hstate
    exact hreset

theorem accepts_opens (h : Tracks key fp strict ctx items)
    (hlen : items.length + 1 < 2 ^ 64)
    (hwidth : s.sd.chainHashLen = s.sd.chainHash.length)
    (hinit : s.sd.type = .init) (hacc : Accepts faults ctx s ctx') :
    ∃ alg old, Splits IsInit items old ∧
      LogPrefix ossl key fp strict alg (old ++ [[itemFor faults s]]) ∧
      Open ctx' alg [itemFor faults s] := by
  cases hacc with
  | @init _ ctx₁ alg hacc =>
      obtain rfl : ctx = ctx₁ :=
        Option.some.inj ((h.trusted_eq faults s.certDer).symm.trans hacc.trust)
      have hstart := open_segmentStart h alg
      obtain ⟨hseq, hhash⟩ := (hashAccepts_iff hstart (by simp)
        hacc.hash.runs (itemFor faults s) hwidth).mp hacc.hash
      have hsig : ¬ IsSig (itemFor faults s) := by
        simp [IsSig, itemFor, hinit]
      have hok : ItemOk ossl key fp alg [] (itemFor faults s) := by
        refine ⟨hseq, hhash, ?_⟩
        simp only [TypeOk, itemFor, hinit]
        exact ⟨hacc.hasFp, hacc.ready.fp.trans h.fp_eq⟩
      have hopen := open_of_not_sig hstart hhash hsig
      rcases h.log with ⟨rfl, -⟩ | ⟨alg', segments, segment, hsplits, hlog, hlast⟩
      · refine ⟨alg, [], splits_nil.mpr rfl, ?_, hopen⟩
        exact logPrefix_open.mpr ⟨by simp, by simp, hok⟩
      · obtain rfl : alg' = alg :=
          hlast.alg_eq.symm.trans (hacc.ready.lock hlast.locked)
        have hne := (hsplits.2 segment (by simp)).ne_nil
        have hle := segment_length_le hsplits
        refine ⟨alg', _, hsplits, logPrefix_open.mpr ⟨hlog.1, ?_, hok⟩, hopen⟩
        intro hstrict old hold
        rcases List.mem_append.mp hold with hold | hold
        · exact hlog.2 hstrict old (by simpa using hold)
        · rw [List.mem_singleton.mp hold]
          apply (unsignedTail_of_open hlast (by omega) hne).mp
          exact hacc.ready.tail hlast.state (h.strict_eq.trans hstrict)
  | msg htype => simp [hinit] at htype
  | sig htype => simp [hinit] at htype
  | «continue» htype => simp [hinit] at htype

theorem accepts_of_opens (h : Tracks key fp strict ctx items)
    (hlen : items.length + 1 < 2 ^ 64)
    (hwidth : s.sd.chainHashLen = s.sd.chainHash.length)
    (hruns : faults.hashChain = false) (hiv : faults.chainInit = false)
    (hinit : s.sd.type = .init) {old : List (List Item)}
    (hsplits : Splits IsInit items old)
    (hlog : LogPrefix ossl key fp strict alg (old ++ [[itemFor faults s]])) :
    ∃ ctx', Accepts faults ctx s ctx' := by
  obtain ⟨hall, hsigned, hok⟩ := logPrefix_open.mp hlog
  have htype := hok.type
  simp only [TypeOk, itemFor, hinit] at htype
  have hstart := open_segmentStart h alg
  have hhash : HashAccepts faults (segmentStart ctx alg) s.sd s.msg :=
    (hashAccepts_iff hstart (by simp) hruns (itemFor faults s) hwidth).mpr
      ⟨hok.seq, hok.hash⟩
  have hready : InitReady ctx s.sd alg := by
    refine ⟨h.havePubkey, htype.2.trans h.fp_eq.symm, ?_, ?_, ?_⟩
    · intro hstate hstrict
      rcases h.log with ⟨-, hexpect, -⟩ | ⟨_, segments, segment, hcut, -, hlast⟩
      · rw [hexpect] at hstate
        cases hstate
      · obtain rfl := hsplits.unique hcut
        have hne := (hcut.2 segment (by simp)).ne_nil
        have hle := segment_length_le hcut
        apply (unsignedTail_of_open hlast (by omega) hne).mpr
        exact hsigned (h.strict_eq.symm.trans hstrict) segment (by simp)
    · exact hhash.fits.2
    · intro hlocked
      rcases h.log with ⟨-, -, hfree, -⟩ | ⟨alg', segments, segment, hcut,
        hlog', hlast⟩
      · rw [hfree] at hlocked
        cases hlocked
      · obtain rfl := hsplits.unique hcut
        have hne := (hcut.2 segment (by simp)).ne_nil
        rw [hlast.alg_eq]
        exact alg_unique hne (hlog'.1 segment (by simp))
          (hall segment (by simp))
  exact ⟨_, .init hinit
    ⟨htype.1, h.trusted_eq faults s.certDer, hready, hiv, hhash⟩⟩

/-! ## One line -/

theorem tracks_accepts (h : Tracks key fp strict ctx items)
    (hlen : items.length + 1 < 2 ^ 64)
    (hwidth : s.sd.chainHashLen = s.sd.chainHash.length)
    (hacc : Accepts faults ctx s ctx') :
    Tracks key fp strict ctx' (items ++ [itemFor faults s]) := by
  have htrust := h.trusted_eq faults s.certDer
  have hsame := accepts_sameTrust htrust hacc
  obtain ⟨hmsg, hsigs, hsegments⟩ := accepts_counts htrust hacc
  refine ⟨hsame.errors.trans h.errors, hsame.pubkey.trans h.pubkey,
    hsame.fp_eq.trans h.fp_eq, hsame.havePubkey.trans h.havePubkey,
    hsame.store.trans h.store, hsame.strict_eq.trans h.strict_eq, ?_, ?_, ?_,
    .inr ?_⟩
  · rw [hmsg, h.msgCount, List.length_append, List.length_singleton, ofNat_succ]
  · rw [hsigs, h.sigCount, List.countP_append, UInt64.ofNat_add]
    congr 1
    by_cases hsig : IsSig (itemFor faults s) <;> simp [hsig]
  · rw [hsegments, h.segmentCount, List.countP_append, UInt64.ofNat_add]
    congr 1
    by_cases hsegment : IsInit (itemFor faults s) ∨
        IsContinue (itemFor faults s) <;> simp [hsegment]
  · by_cases hinit : IsInit (itemFor faults s)
    · obtain ⟨alg, old, hsplits, hlog, hopen⟩ :=
        accepts_opens h hlen hwidth hinit hacc
      exact ⟨alg, old, _, (splits_concat_of_head hinit).mpr
        ⟨old, rfl, hsplits⟩, hlog, hopen⟩
    · rcases h.log with ⟨rfl, hstate, -⟩ | ⟨alg, segments, segment, hsplits,
        hlog, hopen⟩
      · cases hacc with
        | init htype => exact absurd htype hinit
        | msg _ hprocessing => simp [hstate] at hprocessing
        | sig _ hprocessing => simp [hstate] at hprocessing
        | «continue» _ hprocessing => simp [hstate] at hprocessing
      · have hle := segment_length_le hsplits
        obtain ⟨hok, hopen'⟩ := accepts_extends hopen (by omega) h.pubkey
          h.fp_eq hwidth hinit hacc
        exact ⟨alg, segments, _, (splits_concat_of_not_head hinit).mpr
          ⟨segments, segment, rfl, hsplits⟩,
          logPrefix_extend.mpr ⟨hlog, hok⟩, hopen'⟩

theorem accepts_of_logSoFar (h : Tracks key fp strict ctx items)
    (hlen : items.length + 1 < 2 ^ 64)
    (hwidth : s.sd.chainHashLen = s.sd.chainHash.length)
    (hruns : faults.hashChain = false) (hiv : faults.chainInit = false)
    (hlog : LogSoFar key fp strict (items ++ [itemFor faults s])) :
    ∃ ctx', Accepts faults ctx s ctx' := by
  obtain ⟨alg, segments, hsplits, hlog⟩ := hlog
  by_cases hinit : IsInit (itemFor faults s)
  · obtain ⟨old, rfl, hold⟩ := (splits_concat_of_head hinit).mp hsplits
    exact accepts_of_opens h hlen hwidth hruns hiv hinit hold hlog
  · obtain ⟨old, last, rfl, hold⟩ :=
      (splits_concat_of_not_head hinit).mp hsplits
    obtain ⟨hold', hok⟩ := logPrefix_extend.mp hlog
    rcases h.log with ⟨rfl, -⟩ | ⟨alg', segments, segment, hcut, hlog',
      hopen⟩
    · simp at hold
    · obtain ⟨rfl, hsegment⟩ := List.append_inj' (hold.unique hcut) rfl
      obtain rfl : last = segment := by simpa using hsegment
      have hne := (hcut.2 last (by simp)).ne_nil
      have hle := segment_length_le hcut
      obtain rfl := alg_unique hne (hlog'.1 last (by simp))
        (hold'.1 last (by simp))
      exact accepts_of_itemOk hopen (by omega) h.pubkey h.fp_eq hwidth hruns
        hinit hok

end Step

/-! ## Runs -/

section Run

variable {key : ossl.Pkey} {fp : Bytes} {strict : Bool}
  {ctx : VerifierCtx ossl} {items : List Item}

def HashRuns (call : VerifyCall) : Prop :=
  call.faults.hashChain = false ∧ call.faults.chainInit = false

theorem not_silent (h : Tracks key fp strict ctx items) {call : VerifyCall}
    (hruns : HashRuns call) {s : StrippedLine} {tail : UInt64} :
    ¬ Silent call.faults ctx s tail := by
  intro hsilent
  cases hsilent with
  | storeCtx _ _ htrust => simp [TrustSilent, h.store] at htrust
  | chainInit _ _ _ _ hfault => simp [hruns.2] at hfault
  | initHash _ _ _ _ _ hfault => simp [HashSilent, hruns.1] at hfault
  | hash _ _ hfault => simp [HashSilent, hruns.1] at hfault

theorem tracks_step (h : Tracks key fp strict ctx items)
    (hlen : items.length + 1 < 2 ^ 64) {call : VerifyCall}
    (hruns : HashRuns call)
    (herrors : (processCall ctx call).1.errors = []) :
    ∃ item, itemOf ossl call = some item ∧
      Tracks key fp strict (processCall ctx call).1 (items ++ [item]) := by
  obtain ⟨-, s, hstrip, hmalformed, hcases⟩ := processLine_clean h.live herrors
  cases hcases with
  | inl haccepts =>
      obtain ⟨ctx', haccepts⟩ := haccepts
      have hstep : (processCall ctx call).1 = ctx' := by
        rw [processCall, processLine_of_accepts h.live hstrip hmalformed
          haccepts]
      refine ⟨itemFor call.faults s,
        itemOf_eq_some.mpr ⟨s, hstrip, hmalformed, rfl⟩, ?_⟩
      rw [hstep]
      exact tracks_accepts h hlen (stripLine_width hstrip) haccepts
  | inr hsilent =>
      obtain ⟨tail, hsilent⟩ := hsilent
      exact absurd hsilent (not_silent h hruns)

theorem errors_of_logSoFar (h : Tracks key fp strict ctx items)
    (hlen : items.length + 1 < 2 ^ 64) {call : VerifyCall}
    (hruns : HashRuns call) {item : Item}
    (hitem : itemOf ossl call = some item)
    (hlog : LogSoFar key fp strict (items ++ [item])) :
    (processCall ctx call).1.errors = [] := by
  obtain ⟨s, hstrip, hmalformed, rfl⟩ := itemOf_eq_some.mp hitem
  have hwidth := stripLine_width hstrip
  obtain ⟨ctx', haccepts⟩ :=
    accepts_of_logSoFar h hlen hwidth hruns.1 hruns.2 hlog
  rw [processCall, processLine_of_accepts h.live hstrip hmalformed haccepts]
  exact (tracks_accepts h hlen hwidth haccepts).errors

theorem logSoFar_of_concat {item : Item}
    (h : LogSoFar key fp strict (items ++ [item])) :
    LogSoFar key fp strict items := by
  obtain ⟨alg, segments, hsplits, hlog⟩ := h
  by_cases hinit : IsInit item
  · obtain ⟨old, rfl, hold⟩ := (splits_concat_of_head hinit).mp hsplits
    obtain ⟨hall, hsigned, -⟩ := logPrefix_open.mp hlog
    refine ⟨alg, old, hold, hall, fun hstrict segment hsegment => ?_⟩
    exact hsigned hstrict segment (List.mem_of_mem_dropLast hsegment)
  · obtain ⟨old, last, rfl, hold⟩ :=
      (splits_concat_of_not_head hinit).mp hsplits
    exact ⟨alg, _, hold, (logPrefix_extend.mp hlog).1⟩

theorem strips_concat {calls : List VerifyCall} {call : VerifyCall}
    {items : List Item} :
    Strips ossl (calls ++ [call]) items ↔
      ∃ old item, items = old ++ [item] ∧ Strips ossl calls old ∧
        itemOf ossl call = some item := by
  unfold Strips
  constructor
  · intro h
    rcases List.eq_nil_or_concat' items with rfl | ⟨old, item, rfl⟩
    · simp at h
    · rw [List.map_append, List.map_append] at h
      obtain ⟨hold, hitem⟩ := List.append_inj' h rfl
      exact ⟨old, item, rfl, hold, by simpa using hitem⟩
  · rintro ⟨old, item, rfl, hold, hitem⟩
    rw [List.map_append, List.map_append, hold, List.map_singleton,
      List.map_singleton, hitem]

theorem Strips.length_eq {calls : List VerifyCall} {items : List Item}
    (h : Strips ossl calls items) : items.length = calls.length := by
  simpa using (congrArg List.length h).symm

theorem feed_tracks (calls : List VerifyCall)
    (hruns : ∀ call ∈ calls, HashRuns call) (hlen : calls.length < 2 ^ 64)
    (h : (feed (keyedCtx strict key fp) calls).errors = []) :
    ∃ items, Strips ossl calls items ∧
      Tracks key fp strict (feed (keyedCtx strict key fp) calls) items := by
  induction calls using List.reverseRecOn with
  | nil => exact ⟨[], rfl, tracks_keyedCtx⟩
  | append_singleton calls call ih =>
      rw [List.length_append, List.length_singleton] at hlen
      rw [feed_concat] at h ⊢
      obtain ⟨items, hstrips, htracks⟩ :=
        ih (fun c hc => hruns c (by simp [hc])) (by omega) (processCall_errors h)
      have hlength := hstrips.length_eq
      obtain ⟨item, hitem, hnext⟩ :=
        tracks_step htracks (by omega) (hruns call (by simp)) h
      exact ⟨items ++ [item],
        strips_concat.mpr ⟨items, item, rfl, hstrips, hitem⟩, hnext⟩

theorem feed_errors_of_logSoFar (calls : List VerifyCall)
    (hruns : ∀ call ∈ calls, HashRuns call) (hlen : calls.length < 2 ^ 64)
    {items : List Item} (hstrips : Strips ossl calls items)
    (hlog : LogSoFar key fp strict items) :
    (feed (keyedCtx strict key fp) calls).errors = [] := by
  induction calls using List.reverseRecOn generalizing items with
  | nil => rfl
  | append_singleton calls call ih =>
      rw [List.length_append, List.length_singleton] at hlen
      obtain ⟨old, item, rfl, hold, hitem⟩ := strips_concat.mp hstrips
      have hcalls : ∀ c ∈ calls, HashRuns c := fun c hc => hruns c (by simp [hc])
      have herrors := ih hcalls (by omega) hold (logSoFar_of_concat hlog)
      obtain ⟨items, hitems, htracks⟩ := feed_tracks calls hcalls (by omega) herrors
      obtain rfl : items = old := by
        have heq : items.map some = old.map some := hitems.symm.trans hold
        exact List.map_injective_iff.mpr (Option.some_injective _) heq
      have hlength := hold.length_eq
      rw [feed_concat]
      exact errors_of_logSoFar htracks (by omega) (hruns call (by simp)) hitem
        hlog

theorem chainLog_iff (h : Tracks key fp strict ctx items)
    (hlen : items.length < 2 ^ 64) :
    ChainLog ossl key fp strict items ↔
      ctx.state ≠ .expectInit ∧ (ctx.strict = true → unsignedTail ctx = 0) := by
  rw [h.strict_eq]
  rcases h.log with ⟨rfl, hstate, -⟩ | ⟨alg, segments, segment, hsplits, hlog,
    hopen⟩
  · simp [ChainLog, hstate]
  · have hne := (hsplits.2 segment (by simp)).ne_nil
    have hle := segment_length_le hsplits
    rw [unsignedTail_of_open hopen (by omega) hne]
    constructor
    · rintro ⟨-, alg', segments', hsplits', -, hsigned⟩
      obtain rfl := hsplits'.unique hsplits
      refine ⟨by simp [hopen.state], fun hstrict => ?_⟩
      exact hsigned hstrict segment (by simp)
    · rintro ⟨-, hlast⟩
      have hitems : items ≠ [] := by
        rintro rfl
        simp at hsplits
      refine ⟨hitems, alg, _, hsplits, hlog.1, fun hstrict old hold => ?_⟩
      rcases List.mem_append.mp hold with hold | hold
      · exact hlog.2 hstrict old (by simpa using hold)
      · rw [List.mem_singleton.mp hold]
        exact hlast hstrict

theorem ChainLog.logSoFar (h : ChainLog ossl key fp strict items) :
    LogSoFar key fp strict items := by
  obtain ⟨-, alg, segments, hsplits, hall, hsigned⟩ := h
  refine ⟨alg, segments, hsplits, hall, fun hstrict segment hsegment => ?_⟩
  exact hsigned hstrict segment (List.mem_of_mem_dropLast hsegment)

end Run

/-! ## The verdict -/

theorem strips_unique {calls : List VerifyCall} {items items' : List Item}
    (h : Strips ossl calls items) (h' : Strips ossl calls items') :
    items = items' :=
  List.map_injective_iff.mpr (Option.some_injective _) (h.symm.trans h')

theorem passed_iff_chainLog {key : ossl.Pkey} {fp : Bytes} {strict : Bool}
    {calls : List VerifyCall} (hruns : ∀ call ∈ calls, HashRuns call)
    (hlen : calls.length < 2 ^ 64) :
    verifierPassed (verifierFinalize (feed (keyedCtx strict key fp) calls)) =
        true ↔
      ∃ items, Strips ossl calls items ∧
        ChainLog ossl key fp strict items := by
  rw [verifierPassed_iff, verifierFinalize_errors]
  constructor
  · rintro ⟨herrors, hverdict⟩
    obtain ⟨items, hstrips, htracks⟩ := feed_tracks calls hruns hlen herrors
    have hlength := hstrips.length_eq
    exact ⟨items, hstrips, (chainLog_iff htracks (by omega)).mpr hverdict⟩
  · rintro ⟨items, hstrips, hlog⟩
    have herrors :=
      feed_errors_of_logSoFar calls hruns hlen hstrips hlog.logSoFar
    obtain ⟨items', hstrips', htracks⟩ := feed_tracks calls hruns hlen herrors
    obtain rfl := strips_unique hstrips hstrips'
    have hlength := hstrips.length_eq
    exact ⟨herrors, (chainLog_iff htracks (by omega)).mp hlog⟩

theorem verifier_accepts_iff (ossl : OpenSSL) (fingerprintFails : Bool)
    (opts : VerifierOpts) (ctx : VerifierCtx ossl)
    (hinit : verifierInit ossl fingerprintFails opts = some ctx)
    (hmode : opts.caBundlePath = none) (calls : List VerifyCall)
    (hruns : ∀ call ∈ calls, HashRuns call) (hlen : calls.length < 2 ^ 64) :
    ∃ key fp, ctx.pubkey = some key ∧
      hcsPubkeyFingerprint ossl fingerprintFails key = some fp ∧
      (verifierPassed (verifierFinalize (feed ctx calls)) = true ↔
        ∃ items, Strips ossl calls items ∧
          ChainLog ossl key fp opts.strict items) ∧
      (verifierPassed (verifierFinalize (feed ctx calls)) = true →
        ∀ items, Strips ossl calls items →
          (verifierFinalize (feed ctx calls)).msgCount =
            UInt64.ofNat items.length ∧
          (verifierFinalize (feed ctx calls)).sigCount =
            UInt64.ofNat (items.countP (IsSig ·)) ∧
          (verifierFinalize (feed ctx calls)).segmentCount = UInt64.ofNat
            (items.countP fun item => IsInit item ∨ IsContinue item)) := by
  rcases verifierInit_cases hinit with ⟨-, key, fp, rfl, hfp⟩ | ⟨hbundle, -⟩
  · refine ⟨key, fp, rfl, hfp, passed_iff_chainLog hruns hlen, ?_⟩
    intro hpassed items hstrips
    have herrors :=
      (verifierFinalize_errors.mp (verifierPassed_iff.mp hpassed)).1
    obtain ⟨items', hstrips', htracks⟩ := feed_tracks calls hruns hlen herrors
    obtain rfl := strips_unique hstrips hstrips'
    exact ⟨htracks.msgCount, htracks.sigCount, htracks.segmentCount⟩
  · exact absurd hmode hbundle

/-! ## A log of 2^64 lines -/

def unsignedItem (i : Nat) : Item :=
  let hash := payloadHash sampleOpenSSL .sha256 (List.replicate (i + 1) [])
  { record :=
      if i = 0 then initRecord .init 1 hash (sampleDigest .sha256 [7])
      else msgRecord (UInt64.ofNat (i + 1)) hash
    payload := []
    verifyFails := false }

def unsignedCall (i : Nat) : VerifyCall :=
  let hash := payloadHash sampleOpenSSL .sha256 (List.replicate (i + 1) [])
  { line := elementText
      (if i = 0 then initParams "I" 1 hash (sampleDigest .sha256 [7])
        else msgParams (UInt64.ofNat (i + 1)) hash) }

def signingCall : VerifyCall :=
  let hash := payloadHash sampleOpenSSL .sha256 [[], []]
  { line := elementText (sigParams 2 hash 1 2 hash) }

def signedLog : List VerifyCall :=
  [unsignedCall 0, signingCall, unsignedCall 0, signingCall]

def signedFile : Bytes :=
  (unsignedCall 0).line ++ [10] ++ signingCall.line ++ [10]

theorem verifier_accepts_iff_sample :
    ∃ key fp, (sampleCtx true).pubkey = some key ∧
      ∃ items, Strips sampleOpenSSL signedLog items ∧
        ChainLog sampleOpenSSL key fp true items ∧
        UInt64.ofNat items.length = 4 ∧
        UInt64.ofNat (items.countP (IsSig ·)) = 2 ∧
        UInt64.ofNat
          (items.countP fun item => IsInit item ∨ IsContinue item) = 2 := by
  obtain ⟨key, fp, hkey, -, hiff, hcounts⟩ := verifier_accepts_iff
    sampleOpenSSL false { pubkeyPath := some [7], strict := true }
    (sampleCtx true) rfl rfl signedLog
    (by simp [HashRuns, signedLog, unsignedCall, signingCall]) (by decide)
  have hpassed : verifierPassed (verifierFinalize
      (feed (sampleCtx true) signedLog)) = true := by decide +kernel
  obtain ⟨items, hstrips, hlog⟩ := hiff.mp hpassed
  obtain ⟨hmsg, hsig, hsegment⟩ := hcounts hpassed items hstrips
  refine ⟨key, fp, hkey, items, hstrips, hlog, ?_, ?_, ?_⟩
  · rw [← hmsg]
    decide +kernel
  · rw [← hsig]
    decide +kernel
  · rw [← hsegment]
    decide +kernel

def unsignedItems (n : Nat) : List Item := (List.range n).map unsignedItem

def unsignedLog (n : Nat) : List VerifyCall :=
  (List.range n).map unsignedCall

theorem unsignedItems_succ (n : Nat) :
    unsignedItems (n + 1) = unsignedItems n ++ [unsignedItem n] := by
  simp [unsignedItems, List.range_succ]

theorem unsignedLog_succ (n : Nat) :
    unsignedLog (n + 1) = unsignedLog n ++ [unsignedCall n] := by
  simp [unsignedLog, List.range_succ]

theorem segmentHash_unsignedItems (n : Nat) :
    segmentHash sampleOpenSSL .sha256 (unsignedItems n) =
      payloadHash sampleOpenSSL .sha256 (List.replicate n []) := by
  have hpayloads : (unsignedItems n).map (·.payload) = List.replicate n [] := by
    rw [List.eq_replicate_iff]
    simp [unsignedItems, unsignedItem]
  rw [segmentHash, hpayloads]

theorem stripLine_unsignedCall (i : Nat) :
    stripLine sampleOpenSSL (unsignedCall i).line =
      some ⟨(unsignedItem i).record, [], [], false⟩ := by
  have hhash : (payloadHash sampleOpenSSL .sha256
      (List.replicate (i + 1) [])).length = hcsHashLen .sha256 :=
    payloadHash_length _ _
  have hfp : (sampleDigest .sha256 [7]).length =
      Common.Limits.hcsHashLen := sampleOpenSSL.digest_length .sha256 [7]
  have hletter : ascii "I" = [73] := rfl
  have hnil : ¬ sdPrefix hcsSdCertId <:+: ([] : Bytes) := by decide
  rw [← List.append_nil (unsignedCall i).line]
  by_cases hi : i = 0
  · simp only [unsignedCall, unsignedItem, hi, if_true]
    subst hi
    exact stripLine_elementText (initParams_plain "I" (by decide +kernel) _ _ _)
      (sdParseBody_init sampleOpenSSL hletter (by decide +kernel) 1 hhash hfp)
      (by decide) hnil
  · simp only [unsignedCall, unsignedItem, hi, if_false]
    exact stripLine_elementText (msgParams_plain _ _)
      (sdParseBody_msg sampleOpenSSL _ hhash) (by decide) hnil

theorem not_isSig_unsignedItem (i : Nat) : ¬ IsSig (unsignedItem i) := by
  unfold IsSig unsignedItem
  split_ifs <;> simp [initRecord, msgRecord]

theorem lastSig_unsignedItems (n : Nat) : lastSig (unsignedItems n) = 0 := by
  induction n with
  | zero => rfl
  | succ n ih =>
      rw [unsignedItems_succ,
        lastSig_concat_of_not_sig (not_isSig_unsignedItem n), ih]

theorem unsignedItem_hash (n : Nat) :
    (unsignedItem n).record.chainHash = segmentHash sampleOpenSSL .sha256
      (unsignedItems n ++ [unsignedItem n]) := by
  rw [← unsignedItems_succ, segmentHash_unsignedItems]
  unfold unsignedItem
  split_ifs <;> rfl

theorem hashAccepts_unsigned {ctx : VerifierCtx sampleOpenSSL} {n : Nat}
    (hopen : Open ctx .sha256 (unsignedItems n)) :
    HashAccepts {} ctx (unsignedItem n).record [] where
  fits := by
    have hwidth : (payloadHash sampleOpenSSL .sha256
        (List.replicate (n + 1) [])).length = hcsHashLen .sha256 :=
      payloadHash_length _ _
    refine ⟨?_, ?_⟩
    · rw [hopen.next, unsignedItems, List.length_map, List.length_range]
      by_cases hn : n = 0
      · simp [unsignedItem, hn, initRecord]
      · simp [unsignedItem, hn, msgRecord]
    · rw [hopen.width, ← hwidth]
      unfold unsignedItem
      split_ifs <;> rfl
  runs := rfl
  hash := by
    rw [unsignedItem_hash]
    exact nextHash_of_open hopen (unsignedItem n)

theorem processCall_unsigned {ctx : VerifierCtx sampleOpenSSL} {n : Nat}
    (hlive : Live ctx) {ctx' : VerifierCtx sampleOpenSSL}
    (h : Accepts {} ctx ⟨(unsignedItem n).record, [], [], false⟩ ctx') :
    (processCall ctx (unsignedCall n)).1 = ctx' := by
  have hstep := processLine_of_accepts hlive (stripLine_unsignedCall n) rfl h 0
  exact congrArg Prod.fst hstep

theorem feed_unsignedLog (n : Nat) :
    (feed (sampleCtx true) (unsignedLog (n + 1))).errors = [] ∧
      (feed (sampleCtx true) (unsignedLog (n + 1))).strict = true ∧
      Open (feed (sampleCtx true) (unsignedLog (n + 1))) .sha256
        (unsignedItems (n + 1)) := by
  induction n with
  | zero =>
      have hstart : Open (segmentStart (sampleCtx true) .sha256) .sha256
          (unsignedItems 0) := open_segmentStart tracks_keyedCtx .sha256
      have haccepts : InitAccepts {} (sampleCtx true) (sampleCtx true)
          ⟨(unsignedItem 0).record, [], [], false⟩ .sha256 := by
        refine ⟨rfl, rfl, ⟨rfl, rfl, ?_, (hashAccepts_unsigned hstart).fits.2,
          ?_⟩, rfl, hashAccepts_unsigned hstart⟩
        · intro h
          cases h
        · intro h
          cases h
      have hstep := processCall_unsigned (.inl rfl) (.init rfl haccepts)
      have hfirst : feed (sampleCtx true) (unsignedLog 0) = sampleCtx true :=
        rfl
      rw [unsignedLog_succ, feed_concat, hfirst, hstep, unsignedItems_succ]
      exact ⟨rfl, rfl, open_of_not_sig hstart (unsignedItem_hash 0)
        (not_isSig_unsignedItem 0)⟩
  | succ n ih =>
      obtain ⟨herrors, hstrict, hopen⟩ := ih
      have htype : (unsignedItem (n + 1)).record.type = .msg := by
        simp [unsignedItem, msgRecord]
      have hstep := processCall_unsigned (.inr hopen.state)
        (.msg htype hopen.state (hashAccepts_unsigned hopen))
      rw [unsignedLog_succ, feed_concat, hstep, unsignedItems_succ (n + 1)]
      exact ⟨herrors, hstrict, open_of_not_sig hopen
        (unsignedItem_hash (n + 1)) (not_isSig_unsignedItem (n + 1))⟩

theorem ChainLog.endsSigned {key : ossl.Pkey} {fp : Bytes}
    {items : List Item} (h : ChainLog ossl key fp true items) :
    EndsSigned items := by
  obtain ⟨hne, alg, segments, hsplits, -, hsigned⟩ := h
  rcases List.eq_nil_or_concat' segments with rfl | ⟨old, last, rfl⟩
  · exact absurd (by simpa using hsplits.1) hne
  · obtain ⟨before, item, rfl, hsig⟩ := hsigned rfl last (by simp)
    exact ⟨old.flatten ++ before, item, by simp [hsplits.1], hsig⟩

theorem strips_unsignedLog (n : Nat) :
    Strips sampleOpenSSL (unsignedLog n) (unsignedItems n) := by
  unfold Strips unsignedLog unsignedItems
  rw [List.map_map, List.map_map]
  apply List.map_congr_left
  intro i _
  simp only [Function.comp_apply, itemOf, stripLine_unsignedCall,
    Option.bind_some, Bool.false_eq_true, if_false]
  rfl

theorem hashRuns_unsignedLog (n : Nat) :
    ∀ call ∈ unsignedLog n, HashRuns call := by
  intro call hcall
  obtain ⟨i, -, rfl⟩ := List.mem_map.mp hcall
  exact ⟨rfl, rfl⟩

/-- The position wraps around, and nothing counts as unsigned any more. -/
theorem unsignedLog_passed :
    verifierPassed (verifierFinalize
      (feed (sampleCtx true) (unsignedLog (2 ^ 64)))) = true := by
  obtain ⟨n, hn⟩ : ∃ n, 2 ^ 64 = n + 1 := ⟨2 ^ 64 - 1, by decide⟩
  obtain ⟨herrors, hstrict, hopen⟩ := feed_unsignedLog n
  rw [hn, verifierPassed_iff, verifierFinalize_errors]
  refine ⟨herrors, by simp [hopen.state], fun _ => ?_⟩
  rw [unsignedTail, hopen.next, hopen.signed, lastSig_unsignedItems,
    unsignedItems, List.length_map, List.length_range, ← hn]
  decide

theorem unsigned_log_accepted :
    (unsignedLog (2 ^ 64)).length = 2 ^ 64 ∧
      (∀ call ∈ unsignedLog (2 ^ 64), HashRuns call) ∧
      verifierInit sampleOpenSSL false
        { pubkeyPath := some [7], strict := true } = some (sampleCtx true) ∧
      verifierPassed (verifierFinalize
        (feed (sampleCtx true) (unsignedLog (2 ^ 64)))) = true ∧
      ¬ ∃ items, Strips sampleOpenSSL (unsignedLog (2 ^ 64)) items ∧
        ChainLog sampleOpenSSL [7] (sampleDigest .sha256 [7]) true items := by
  refine ⟨?_, hashRuns_unsignedLog _, rfl, unsignedLog_passed, ?_⟩
  · rw [unsignedLog, List.length_map, List.length_range]
  · rintro ⟨items, hstrips, hlog⟩
    obtain rfl := strips_unique (strips_unsignedLog _) hstrips
    obtain ⟨before, item, heq, hsig⟩ := hlog.endsSigned
    have hmem : item ∈ unsignedItems (2 ^ 64) := by
      rw [heq]
      exact List.mem_append_right _ (List.mem_singleton_self _)
    obtain ⟨i, -, rfl⟩ := List.mem_map.mp hmem
    exact not_isSig_unsignedItem i hsig

end MmHashChainSigs.Verify
