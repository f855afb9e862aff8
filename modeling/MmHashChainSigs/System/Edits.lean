import MmHashChainSigs.System.Tamper
import MmHashChainSigs.Verify.Pinned

/-!
# Edited logs

A log that is made of the lines of an accepted one is accepted only if each of
its segments is the beginning of a chain up to a signature.  Segments are not
linked to each other, so such beginnings can be dropped, repeated and moved.
-/

namespace MmHashChainSigs.System

open MmHashChainSigs.Foundation
open MmHashChainSigs.Common
open MmHashChainSigs.Module
open MmHashChainSigs.Verify

variable {ossl : OpenSSL}

/-! ## Edits -/

def linesOf (calls : List VerifyCall) : List Bytes :=
  calls.map VerifyCall.line

def MadeOf (calls calls' : List VerifyCall) : Prop :=
  linesOf calls' ⊆ linesOf calls

inductive Rearranged (lines lines' : List Bytes) : Prop where
  | deleted (hsub : lines'.Sublist lines)
      (hlast : lines'.getLast? = lines.getLast?)
  | permuted (hperm : lines'.Perm lines)

/-- A chain of the log up to one of its signatures. -/
def Beginning (segments : List (List Item)) (part : List Item) : Prop :=
  EndsSigned part ∧ ∃ segment ∈ segments, part <+: segment

def entries (segment : List Item) : List (UInt64 × Bytes × Bytes) :=
  segment.map fun item =>
    (item.record.seq, item.record.chainHash, item.payload)

def SegmentsCollide (ossl : OpenSSL) (alg : HcsHashAlg)
    (segment segment' : List Item) : Prop :=
  HashChain.Collision (ossl.digest alg) (segmentInputs ossl alg segment')
    (segmentInputs ossl alg segment)

theorem Rearranged.subset {lines lines' : List Bytes}
    (h : Rearranged lines lines') : lines' ⊆ lines := by
  cases h with
  | deleted hsub => exact hsub.subset
  | permuted hperm => exact hperm.subset

/-! ## Lines and items -/

theorem itemOf_same_line {call call' : VerifyCall}
    (hline : call'.line = call.line) {item' : Item}
    (h : itemOf ossl call' = some item') :
    ∃ item, itemOf ossl call = some item ∧ item.record = item'.record ∧
      item.payload = item'.payload := by
  obtain ⟨s, hstrip, hmalformed, rfl⟩ := itemOf_eq_some.mp h
  rw [hline] at hstrip
  exact ⟨itemFor call.faults s,
    itemOf_eq_some.mpr ⟨s, hstrip, hmalformed, rfl⟩, rfl, rfl⟩

theorem item_of_strips {calls : List VerifyCall} {items : List Item}
    (h : Strips ossl calls items) {call : VerifyCall} (hcall : call ∈ calls) :
    ∃ item ∈ items, itemOf ossl call = some item := by
  have hmem : itemOf ossl call ∈ items.map some := by
    rw [← h]
    exact List.mem_map_of_mem hcall
  obtain ⟨item, hitem, heq⟩ := List.mem_map.mp hmem
  exact ⟨item, hitem, heq.symm⟩

theorem call_of_strips {calls : List VerifyCall} {items : List Item}
    (h : Strips ossl calls items) {item : Item} (hitem : item ∈ items) :
    ∃ call ∈ calls, itemOf ossl call = some item := by
  have hmem : some item ∈ calls.map (itemOf ossl) := by
    rw [h]
    exact List.mem_map_of_mem hitem
  exact List.mem_map.mp hmem

theorem MadeOf.item {calls calls' : List VerifyCall}
    (h : MadeOf calls calls') {items items' : List Item}
    (hstrips : Strips ossl calls items) (hstrips' : Strips ossl calls' items')
    {item' : Item} (hitem' : item' ∈ items') :
    ∃ item ∈ items, item.record = item'.record ∧
      item.payload = item'.payload := by
  obtain ⟨call', hcall', heq'⟩ := call_of_strips hstrips' hitem'
  have hline := h (List.mem_map_of_mem hcall')
  obtain ⟨call, hcall, hsame⟩ := List.mem_map.mp hline
  obtain ⟨item, hitem, heq⟩ := item_of_strips hstrips hcall
  obtain ⟨found, hfound, hrecord, hpayload⟩ :=
    itemOf_same_line hsame.symm heq'
  have hfound' : found = item := Option.some.inj (hfound.symm.trans heq)
  rw [hfound'] at hrecord hpayload
  exact ⟨item, hitem, hrecord, hpayload⟩

/-! ## One segment of an edited log -/

section Segment

variable {key key' : ossl.Pkey} {fp fp' : Bytes} {alg alg' : HcsHashAlg}

theorem inOrder_item {segment : List Item}
    (h : Throughout (ItemOk ossl key fp alg) segment) {i : Nat}
    (hi : i < segment.length) :
    segment[i].record.seq.toNat = i + 1 ∧
      segment[i].record.chainHash =
        segmentHash ossl alg (segment.take (i + 1)) := by
  have hcut : segment = segment.take i ++ segment[i] :: segment.drop (i + 1) :=
    by rw [← List.drop_eq_getElem_cons hi, List.take_append_drop]
  have hok := h _ _ _ hcut
  have hlen : (segment.take i).length = i :=
    List.length_take_of_le (Nat.le_of_lt hi)
  constructor
  · rw [hok.seq, hlen]
  · rw [hok.hash, List.take_concat_get']

theorem entries_of_payloads {segment segment' : List Item}
    (h : Throughout (ItemOk ossl key fp alg) segment)
    (h' : Throughout (ItemOk ossl key' fp' alg) segment')
    (hpayloads : payloads segment' = payloads segment) :
    entries segment' = entries segment := by
  have hlen : segment'.length = segment.length := by
    simpa [payloads] using congrArg List.length hpayloads
  apply List.ext_getElem
  · simpa [entries] using hlen
  · intro i hi' hi
    simp only [entries, List.length_map] at hi hi'
    obtain ⟨hseq, hhash⟩ := inOrder_item h hi
    obtain ⟨hseq', hhash'⟩ := inOrder_item h' hi'
    have hpayload : segment'[i].payload = segment[i].payload := by
      have hget := congrArg (·[i]?) hpayloads
      simpa [payloads, hi, hi'] using hget
    have hprefix : segmentHash ossl alg (segment'.take (i + 1)) =
        segmentHash ossl alg (segment.take (i + 1)) := by
      unfold segmentHash
      rw [List.map_take, List.map_take]
      unfold payloads at hpayloads
      rw [hpayloads]
    simp only [entries, List.getElem_map]
    rw [hhash, hhash', hprefix, hpayload,
      UInt64.toNat_inj.mp (hseq'.trans hseq.symm)]

/-- Two segments that end in one digest. -/
theorem same_or_collide {segment segment' : List Item} (hne : segment ≠ [])
    (hne' : segment' ≠ []) (hlen' : segment'.length < 2 ^ 64)
    (hhash : segmentHash ossl alg segment' = segmentHash ossl alg segment) :
    payloads segment' = payloads segment ∨
      SegmentsCollide ossl alg segment segment' := by
  have heq := @HashChain.eq_or_collision_of_root _ _ _ (ossl.digest alg)
    chainInput _ UInt64.ofNat (fun d : Bytes => d.length = hcsHashLen alg)
    hcsChainIv (ossl.digest alg hcsChainIv) (ossl.digest_length alg)
    (fun _ _ _ _ _ _ hprev hprev' => chainInput_inj hprev hprev')
    (fun _ _ _ hprev => chainInput_ne_root hprev _ _)
    (ossl.digest_length alg _) (payloads segment') (payloads segment)
    (by simpa [payloads] using hne') (by simpa [payloads] using hne)
    (fun k hpos hlt => ofNat_ne_one hpos (by
      rw [payloads, List.length_map] at hlt
      omega)) hhash
  cases heq with
  | inl heq => exact .inl heq
  | inr hcollision =>
      right
      apply hcollision.mono
      · exact List.Subset.refl _
      · exact List.subset_cons_self _ _

end Segment

/-! ## Whole logs -/

structure EditsEvident (ctx : VerifierCtx ossl) (calls : List VerifyCall)
    (alg : HcsHashAlg) (items : List Item) (segments : List (List Item)) :
    Prop where
  strips : Strips ossl calls items
  splits : Splits IsInit items segments
  width : ∀ item ∈ items, item.record.chainHash.length = hcsHashLen alg
  detected : ∀ calls' : List VerifyCall,
    (∀ call ∈ calls', PrimitivesRun call) → calls'.length < 2 ^ 64 →
    MadeOf calls calls' →
    verifierPassed (verifierFinalize (feed ctx calls')) = true →
    ∃ items' segments', Strips ossl calls' items' ∧
      Splits IsInit items' segments' ∧ ∀ segment' ∈ segments',
        (∃ part, Beginning segments part ∧ entries segment' = entries part) ∨
          ∃ segment ∈ segments, SegmentsCollide ossl alg segment segment'
  oneChain : ∀ calls' : List VerifyCall,
    (∀ call ∈ calls', PrimitivesRun call) → segments.length = 1 →
    Rearranged (linesOf calls) (linesOf calls') →
    verifierPassed (verifierFinalize (feed ctx calls')) = true →
    linesOf calls' = linesOf calls
  unlinked : ∀ (calls' : List VerifyCall) (parts : List (List Item)),
    (∀ call ∈ calls', HashRuns call) → calls'.length < 2 ^ 64 →
    ctx.trustStore = none → parts ≠ [] →
    (∀ part ∈ parts, Beginning segments part) →
    Strips ossl calls' parts.flatten →
    verifierPassed (verifierFinalize (feed ctx calls')) = true

section Log

variable {key key' : ossl.Pkey} {fp fp' : Bytes} {alg alg' : HcsHashAlg}
  {items items' : List Item} {segments segments' : List (List Item)}

structure InOrder (key : ossl.Pkey) (fp : Bytes) (alg : HcsHashAlg)
    (items : List Item) (segments : List (List Item)) : Prop where
  splits : Splits IsInit items segments
  rules : ∀ segment ∈ segments, Throughout (ItemOk ossl key fp alg) segment
  ends : ∀ segment ∈ segments, EndsSigned segment

theorem InOrder.segment_le (h : InOrder key fp alg items segments)
    {segment : List Item} (hsegment : segment ∈ segments) :
    segment.length ≤ items.length := by
  rw [h.splits.1]
  exact (List.sublist_flatten_of_mem hsegment).length_le

theorem InOrder.cut (h : InOrder key fp alg items segments) {item : Item}
    (hitem : item ∈ items) :
    ∃ segment ∈ segments, ∃ before after,
      segment = before ++ item :: after ∧
      item.record.seq.toNat = before.length + 1 ∧
      item.record.chainHash = segmentHash ossl alg (before ++ [item]) := by
  rw [h.splits.1] at hitem
  obtain ⟨segment, hsegment, hmem⟩ := List.mem_flatten.mp hitem
  obtain ⟨before, after, rfl⟩ := List.append_of_mem hmem
  have hok := h.rules _ hsegment before item after rfl
  exact ⟨_, hsegment, before, after, rfl, hok.seq, hok.hash⟩

theorem InOrder.width (h : InOrder key fp alg items segments) {item : Item}
    (hitem : item ∈ items) :
    item.record.chainHash.length = hcsHashLen alg := by
  obtain ⟨_, -, before, _, -, -, hhash⟩ := h.cut hitem
  rw [hhash]
  exact payloadHash_length alg _

theorem InOrder.beginning (h : InOrder key fp alg items segments)
    (h' : InOrder key' fp' alg' items' segments')
    (hlen' : items'.length < 2 ^ 64)
    (hmade : ∀ item' ∈ items', ∃ item ∈ items,
      item.record = item'.record ∧ item.payload = item'.payload)
    {segment' : List Item} (hsegment' : segment' ∈ segments') :
    (∃ part, Beginning segments part ∧ entries segment' = entries part) ∨
      ∃ segment ∈ segments, SegmentsCollide ossl alg segment segment' := by
  obtain ⟨before', item', rfl, hsig'⟩ := h'.ends _ hsegment'
  have hitem' : item' ∈ items' := by
    rw [h'.splits.1]
    exact List.mem_flatten.mpr ⟨_, hsegment', by simp⟩
  obtain ⟨item, hitem, hrecord, -⟩ := hmade item' hitem'
  obtain ⟨segment, hsegment, before, after, rfl, -, hhash⟩ := h.cut hitem
  have hhash' := (h'.rules _ hsegment' before' item' [] rfl).hash
  have halg : alg' = alg := by
    apply hcsHashLen_injective
    rw [← h'.width hitem', ← h.width hitem, hrecord]
  subst halg
  have hprefix : before ++ [item] <+: before ++ item :: after := by
    rw [List.append_cons before item after]
    exact List.prefix_append _ _
  have hle := h'.segment_le hsegment'
  rcases @same_or_collide ossl alg' (before ++ [item]) (before' ++ [item'])
      (by simp) (by simp) (by omega)
      (by rw [← hhash, ← hhash', hrecord]) with hsame | hcollide
  · left
    refine ⟨before ++ [item], ⟨⟨before, item, rfl, ?_⟩, _, hsegment,
      hprefix⟩, ?_⟩
    · unfold IsSig at hsig' ⊢
      rw [hrecord]
      exact hsig'
    · have hrules := h.rules _ hsegment
      rw [List.append_cons before item after] at hrules
      exact entries_of_payloads hrules.initial (h'.rules _ hsegment') hsame
  · right
    refine ⟨_, hsegment, hcollide.mono (List.Subset.refl _) ?_⟩
    have hpayloads : payloads (before ++ item :: after) =
        payloads (before ++ [item]) ++ payloads after := by
      simp [payloads]
    unfold segmentInputs
    rw [hpayloads]
    exact List.cons_subset_cons _
      (HashChain.inputs_subset_append _ _ _ _ _)

theorem Rearranged.last {lines lines' : List Bytes} {last : Bytes}
    (h : Rearranged lines lines') (hlast : lines.getLast? = some last) :
    last ∈ lines' ∧ lines'.length ≤ lines.length := by
  cases h with
  | deleted hsub heq =>
      rw [← heq] at hlast
      exact ⟨List.mem_of_getLast? hlast, hsub.length_le⟩
  | permuted hperm =>
      exact ⟨hperm.mem_iff.mpr (List.mem_of_getLast? hlast),
        hperm.length_eq.le⟩

theorem InOrder.line_at (h : InOrder key fp alg items [items])
    (h' : InOrder key' fp' alg' items' [items'])
    {calls calls' : List VerifyCall} (hstrips : Strips ossl calls items)
    (hstrips' : Strips ossl calls' items') (hmade : MadeOf calls calls')
    {i : Nat} (hi : i < calls'.length) :
    (linesOf calls)[i]? = some calls'[i].line := by
  have hlength' := hstrips'.length_eq
  obtain ⟨call, hcall, hline⟩ := List.mem_map.mp
    (hmade (List.mem_map_of_mem (List.getElem_mem hi)))
  obtain ⟨j, hj, rfl⟩ := List.getElem_of_mem hcall
  have hlength := hstrips.length_eq
  have hitem : itemOf ossl calls[j] = some items[j] := by
    have hget := congrArg (·[j]?) hstrips
    simpa [hj, hlength] using hget
  have hitem' : itemOf ossl calls'[i] = some items'[i] := by
    have hget := congrArg (·[i]?) hstrips'
    simpa [hi, hlength'] using hget
  obtain ⟨found, hfound, hrecord, -⟩ := itemOf_same_line hline.symm hitem'
  rw [hitem] at hfound
  obtain rfl := Option.some.inj hfound
  have hseq := (inOrder_item (h.rules items (by simp))
    (show j < items.length by omega)).1
  have hseq' := (inOrder_item (h'.rules items' (by simp))
    (show i < items'.length by omega)).1
  have hsame : j = i := by
    rw [hrecord] at hseq
    omega
  subst hsame
  simp [linesOf, hj, hline]

theorem InOrder.same_lines (h : InOrder key fp alg items [items])
    (h' : InOrder key' fp' alg' items' segments')
    {calls calls' : List VerifyCall} (hstrips : Strips ossl calls items)
    (hstrips' : Strips ossl calls' items')
    (hedit : Rearranged (linesOf calls) (linesOf calls')) :
    linesOf calls' = linesOf calls := by
  have hlength := hstrips.length_eq
  have hlength' := hstrips'.length_eq
  obtain ⟨init, last, rfl, -⟩ := h.ends items (by simp)
  have hok := h.rules _ (by simp) init last [] rfl
  obtain ⟨old, final, heq, hold, hfinal⟩ :
      ∃ old final, calls = old ++ [final] ∧ Strips ossl old init ∧
        itemOf ossl final = some last := by
    rcases List.eq_nil_or_concat' calls with rfl | ⟨old, final, rfl⟩
    · simp at hlength
    · obtain ⟨init', last', hsame, hold, hfinal⟩ := strips_concat.mp hstrips
      obtain ⟨rfl, hone⟩ := List.append_inj' hsame rfl
      obtain rfl : last = last' := by simpa using hone
      exact ⟨old, final, rfl, hold, hfinal⟩
  subst heq
  obtain ⟨hmem, hle⟩ := @Rearranged.last _ _ final.line hedit (by
    simp [linesOf])
  -- the last line stands at its position, so nothing is missing before it
  obtain ⟨call', hcall', hline⟩ := List.mem_map.mp hmem
  obtain ⟨item', hitem', hitemOf⟩ := item_of_strips hstrips' hcall'
  obtain ⟨found, hfound, hrecord, -⟩ := itemOf_same_line hline hitemOf
  rw [hfinal] at hfound
  obtain rfl := Option.some.inj hfound
  obtain ⟨segment', hsegment', before, after, hcut, hseq, -⟩ := h'.cut hitem'
  have hwhole := h'.segment_le hsegment'
  have hlong : init.length + 1 ≤ segment'.length := by
    rw [hcut, List.length_append, List.length_cons, ← hok.seq, hrecord, hseq]
    omega
  have hcount : items'.length ≤ segment'.length := by
    simp only [linesOf, List.length_map, List.length_append,
      List.length_singleton] at hle hlength
    omega
  have hsub : segment'.Sublist items' := by
    rw [h'.splits.1]
    exact List.sublist_flatten_of_mem hsegment'
  have hsame : segment' = items' := hsub.eq_of_length_le hcount
  have hone : InOrder key' fp' alg' items' [items'] := by
    refine ⟨⟨by simp, ?_⟩, ?_, ?_⟩
    · intro segment hsegment
      rw [List.mem_singleton.mp hsegment, ← hsame]
      exact h'.splits.2 segment' hsegment'
    · intro segment hsegment
      rw [List.mem_singleton.mp hsegment, ← hsame]
      exact h'.rules segment' hsegment'
    · intro segment hsegment
      rw [List.mem_singleton.mp hsegment, ← hsame]
      exact h'.ends segment' hsegment'
  have hlines : (linesOf calls').length = (linesOf (old ++ [final])).length := by
    simp only [linesOf, List.length_map, List.length_append,
      List.length_singleton] at hle hlength ⊢
    omega
  apply List.ext_getElem hlines
  intro i hi' hi
  have hi'' : i < calls'.length := by simpa [linesOf] using hi'
  have hat := h.line_at hone hstrips hstrips' hedit.subset hi''
  rw [List.getElem?_eq_getElem hi] at hat
  have hget := (Option.some.inj hat).symm
  simpa [linesOf] using hget

/-- Any beginnings of chains, one behind the other, are a log that passes. -/
theorem InOrder.unlinked (h : InOrder key fp alg items segments)
    {parts : List (List Item)} (hne : parts ≠ [])
    (hparts : ∀ part ∈ parts, Beginning segments part) :
    ChainLog ossl key fp true parts.flatten := by
  have hsegment : ∀ part ∈ parts, IsSegment IsInit part := by
    intro part hpart
    obtain ⟨⟨before, item, rfl, -⟩, segment, hmem, after, rfl⟩ :=
      hparts part hpart
    obtain ⟨first, rest, hcons, hinit, hrest⟩ := h.splits.2 _ hmem
    obtain ⟨first', rest', hpart'⟩ := List.exists_cons_of_ne_nil
      (show before ++ [item] ≠ [] by simp)
    rw [hpart', List.cons_append] at hcons
    obtain ⟨rfl, rfl⟩ := List.cons.inj hcons
    refine ⟨first', rest', hpart', hinit, fun x hx => hrest x ?_⟩
    exact List.mem_append_left _ hx
  refine ⟨?_, alg, parts, ⟨rfl, hsegment⟩, ?_, ?_⟩
  · obtain ⟨part, rest, rfl⟩ := List.exists_cons_of_ne_nil hne
    have hpart := (hsegment part (by simp)).ne_nil
    simp [hpart]
  · intro part hpart
    obtain ⟨-, segment, hmem, after, rfl⟩ := hparts part hpart
    exact (h.rules _ hmem).initial
  · exact fun _ part hpart => (hparts part hpart).1

end Log

theorem inOrder_of_passed {fingerprintFails : Bool} {opts : VerifierOpts}
    {ctx : VerifierCtx ossl}
    (hinit : verifierInit ossl fingerprintFails opts = some ctx)
    (hstrict : opts.strict = true) {calls : List VerifyCall}
    (hruns : ∀ call ∈ calls, PrimitivesRun call)
    (hlen : calls.length < 2 ^ 64)
    (hpassed : verifierPassed (verifierFinalize (feed ctx calls)) = true) :
    ∃ (key : ossl.Pkey) (fp : Bytes) (alg : HcsHashAlg) (items : List Item)
      (segments : List (List Item)),
      (ctx.trustStore = none → ctx = keyedCtx true key fp) ∧
      Strips ossl calls items ∧ InOrder key fp alg items segments := by
  obtain ⟨key, fp, items, hctx, hstrips, -, alg, segments, hsplits, hrules,
    hends⟩ := chainLog_of_passed hinit hruns hlen hpassed
  rw [hstrict] at hctx
  exact ⟨key, fp, alg, items, segments, hctx, hstrips, hsplits, hrules,
    hends hstrict⟩

/-- A log that passes strict verification, and every log made of its lines. -/
theorem edits_evident (ossl : OpenSSL) (fingerprintFails : Bool)
    (opts : VerifierOpts) (ctx : VerifierCtx ossl)
    (hinit : verifierInit ossl fingerprintFails opts = some ctx)
    (hstrict : opts.strict = true) (calls : List VerifyCall)
    (hruns : ∀ call ∈ calls, PrimitivesRun call)
    (hlen : calls.length < 2 ^ 64)
    (hpassed : verifierPassed (verifierFinalize (feed ctx calls)) = true) :
    ∃ alg items segments, EditsEvident ctx calls alg items segments := by
  obtain ⟨key, fp, alg, items, segments, hctx, hstrips, horder⟩ :=
    inOrder_of_passed hinit hstrict hruns hlen hpassed
  refine ⟨alg, items, segments, hstrips, horder.splits, fun item hitem =>
    horder.width hitem, ?_, ?_, ?_⟩
  · intro calls' hruns' hlen' hmade hpassed'
    obtain ⟨key', fp', alg', items', segments', -, hstrips', horder'⟩ :=
      inOrder_of_passed hinit hstrict hruns' hlen' hpassed'
    have hlength' := hstrips'.length_eq
    refine ⟨items', segments', hstrips', horder'.splits, ?_⟩
    intro segment' hsegment'
    exact horder.beginning horder' (by omega)
      (fun item' hitem' => hmade.item hstrips hstrips' hitem') hsegment'
  · intro calls' hruns' hone hedit hpassed'
    have hshort : (linesOf calls').length ≤ (linesOf calls).length := by
      cases hedit with
      | deleted hsub => exact hsub.length_le
      | permuted hperm => exact hperm.length_eq.le
    simp only [linesOf, List.length_map] at hshort
    obtain ⟨key', fp', alg', items', segments', -, hstrips', horder'⟩ :=
      inOrder_of_passed hinit hstrict hruns' (by omega) hpassed'
    obtain ⟨segment, rfl⟩ := List.length_eq_one_iff.mp hone
    have hitems : items = segment := by simpa using horder.splits.1
    subst hitems
    exact horder.same_lines horder' hstrips hstrips' hedit
  · intro calls' parts hruns' hlen' hstore hne hparts hstrips'
    rw [hctx hstore, passed_iff_chainLog hruns' hlen']
    exact ⟨_, hstrips', horder.unlinked hne hparts⟩

/-! ## Two chains of one signer -/

def editInstance : Instance where
  privkeyPath := [7]
  signInterval := 1

def editLife : Sys sampleOpenSSL :=
  (Sys.start sampleOpenSSL editInstance).run
    [.processMsg {} [1] 512, .processMsg {} [2] 512, .processMsg {} [3] 512,
      .crash false editInstance, .processMsg {} [4] 512,
      .processMsg {} [5] 512]

theorem edits_evident_sample : ∃ alg items segments,
    EditsEvident (sampleCtx true) (lifeCalls editLife) alg items segments :=
  edits_evident sampleOpenSSL false
    { pubkeyPath := some [7], strict := true } (sampleCtx true) rfl rfl
    (lifeCalls editLife)
    (by
      intro call hcall
      obtain ⟨emission, -, rfl⟩ := List.mem_map.mp hcall
      exact ⟨⟨rfl, rfl⟩, rfl⟩)
    (by decide +kernel) (by decide +kernel)

def editedCalls (first : Nat) : List VerifyCall :=
  (lifeCalls editLife).take first ++ (lifeCalls editLife).drop 3

def editSegments : List (List Item) :=
  let items := (lifeCalls editLife).filterMap (itemOf sampleOpenSSL)
  [items.take 2, items.take 3, items.drop 3]

/--
The last line of the first chain is deleted, the whole chain is, it is
repeated, and the two chains change places.
-/
theorem edits_pass :
    verifierPassed (verifierFinalize
      (feed (sampleCtx true) (lifeCalls editLife))) = true ∧
    (∀ n ∈ [0, 2],
      Rearranged (linesOf (lifeCalls editLife)) (linesOf (editedCalls n)) ∧
      linesOf (editedCalls n) ≠ linesOf (lifeCalls editLife) ∧
      verifierPassed (verifierFinalize
        (feed (sampleCtx true) (editedCalls n))) = true) ∧
    verifierPassed (verifierFinalize (feed (sampleCtx true)
      ((lifeCalls editLife).take 3 ++ lifeCalls editLife))) = true ∧
    (let swapped := (lifeCalls editLife).drop 3 ++ (lifeCalls editLife).take 3
    Rearranged (linesOf (lifeCalls editLife)) (linesOf swapped) ∧
      linesOf swapped ≠ linesOf (lifeCalls editLife) ∧
      verifierPassed (verifierFinalize (feed (sampleCtx true) swapped)) =
        true) ∧
    ∀ segment ∈ editSegments, ∀ segment' ∈ editSegments,
      ¬ SegmentsCollide sampleOpenSSL .sha256 segment segment' := by
  refine ⟨by decide +kernel, ?_, by decide +kernel, ⟨?_, ?_, ?_⟩, ?_⟩
  · intro n hn
    have hcases : n = 0 ∨ n = 2 := by simpa using hn
    rcases hcases with rfl | rfl
    · exact ⟨.deleted (by decide +kernel) (by decide +kernel),
        by decide +kernel, by decide +kernel⟩
    · exact ⟨.deleted (by decide +kernel) (by decide +kernel),
        by decide +kernel, by decide +kernel⟩
  · exact .permuted (by decide +kernel)
  · decide +kernel
  · decide +kernel
  · unfold SegmentsCollide HashChain.Collision
    decide +kernel

end MmHashChainSigs.System
