import MmHashChainSigs.Module.Records
import MmHashChainSigs.Module.State

/-!
# What the signatures of a chain cover

A chain starts with its only INIT record and counts its records from one on.
Each SIG record covers the positions since the one before it, so the ranges
tile the chain up to the last signature.
-/

namespace MmHashChainSigs.Module

open MmHashChainSigs.Foundation
open MmHashChainSigs.Common

variable {ossl : OpenSSL}

/-! ## Chains of records -/

/-- The records of one chain, its next and its first unsigned position. -/
inductive Chained : List HcsSdRecord → UInt64 → UInt64 → Prop where
  | init {record : HcsSdRecord} (htype : record.type = .init)
      (hseq : record.seq = 1) : Chained [record] 2 1
  | msg {records : List HcsSdRecord} {next sigSeqFrom : UInt64}
      {record : HcsSdRecord} (h : Chained records next sigSeqFrom)
      (htype : record.type = .msg) (hseq : record.seq = next) :
      Chained (records ++ [record]) (next + 1) sigSeqFrom
  | sig {records : List HcsSdRecord} {next sigSeqFrom : UInt64}
      {record : HcsSdRecord} (h : Chained records next sigSeqFrom)
      (htype : record.type = .sig) (hseq : record.seq = next)
      (hfrom : record.seqFrom = sigSeqFrom) (hto : record.seqTo = next) :
      Chained (records ++ [record]) (next + 1) (next + 1)

def sinceSig (records : List HcsSdRecord) : Nat :=
  (records.reverse.takeWhile fun record => record.type ≠ .sig).length

theorem sinceSig_concat (records : List HcsSdRecord) (record : HcsSdRecord) :
    sinceSig (records ++ [record]) =
      if record.type = .sig then 0 else sinceSig records + 1 := by
  unfold sinceSig
  rw [List.reverse_concat, List.takeWhile_cons]
  split_ifs with h1 h2 h2
  · simp_all
  · rfl
  · rfl
  · simp_all

theorem sinceSig_singleton (record : HcsSdRecord) :
    sinceSig [record] = if record.type = .sig then 0 else 1 := by
  rw [← List.nil_append [record], sinceSig_concat]
  rfl

def lastSigned (records : List HcsSdRecord) : Nat :=
  records.length - sinceSig records

theorem lastSigned_concat (records : List HcsSdRecord) (record : HcsSdRecord) :
    lastSigned (records ++ [record]) =
      if record.type = .sig then records.length + 1 else lastSigned records := by
  unfold lastSigned
  rw [sinceSig_concat, List.length_append, List.length_singleton]
  split_ifs
  · rfl
  · omega

section Chained

variable {records : List HcsSdRecord} {next sigSeqFrom : UInt64}

theorem Chained.ne_nil (h : Chained records next sigSeqFrom) :
    records ≠ [] := by
  cases h with
  | init => simp
  | msg => simp
  | sig => simp

theorem ofNat_next (n : Nat) :
    UInt64.ofNat (n + 1 + 1) = UInt64.ofNat (n + 1) + 1 := by
  rw [UInt64.ofNat_add (n + 1) 1]
  rfl

theorem Chained.next_eq (h : Chained records next sigSeqFrom) :
    next = UInt64.ofNat (records.length + 1) := by
  induction h with
  | init => rfl
  | msg _ _ _ ih =>
      rw [ih, List.length_append, List.length_singleton]
      exact (ofNat_next _).symm
  | sig _ _ _ _ _ ih =>
      rw [ih, List.length_append, List.length_singleton]
      exact (ofNat_next _).symm

theorem Chained.seqFrom_eq (h : Chained records next sigSeqFrom) :
    sigSeqFrom = UInt64.ofNat (lastSigned records + 1) := by
  induction h with
  | init htype =>
      unfold lastSigned
      rw [sinceSig_singleton, htype]
      rfl
  | msg _ htype _ ih =>
      rw [lastSigned_concat, if_neg (by simp [htype]), ih]
  | sig h htype _ _ _ _ =>
      rw [lastSigned_concat, if_pos htype, h.next_eq]
      exact (ofNat_next _).symm

theorem getElem?_concat_some (record : HcsSdRecord) (i : Nat)
    (last : HcsSdRecord) :
    (records ++ [last])[i]? = some record ↔
      records[i]? = some record ∨ (i = records.length ∧ last = record) := by
  rcases Nat.lt_or_ge i records.length with hi | hi
  · rw [List.getElem?_append_left hi]
    exact (or_iff_left fun h => absurd h.1 (Nat.ne_of_lt hi)).symm
  · rw [List.getElem?_append_right hi, List.getElem?_singleton,
      List.getElem?_eq_none hi]
    split_ifs with hlast
    · simp [show i = records.length by omega]
    · simp [show i ≠ records.length by omega]

theorem Chained.seq_eq (h : Chained records next sigSeqFrom) {i : Nat}
    {record : HcsSdRecord} (hget : records[i]? = some record) :
    record.seq = UInt64.ofNat (i + 1) := by
  have hlast : ∀ {records : List HcsSdRecord} {next sigSeqFrom : UInt64}
      {last : HcsSdRecord}, Chained records next sigSeqFrom →
      last.seq = next → ∀ i, i = records.length ∧ last = record →
      record.seq = UInt64.ofNat (i + 1) := by
    rintro records next sigSeqFrom last h hseq i ⟨rfl, rfl⟩
    rw [hseq, h.next_eq]
  induction h with
  | init _ hseq =>
      rw [List.getElem?_singleton] at hget
      split_ifs at hget with hi
      cases hget
      rw [hseq, hi]
      rfl
  | msg h _ hseq ih =>
      rcases (getElem?_concat_some _ _ _).mp hget with hold | hnew
      · exact ih hold
      · exact hlast h hseq i hnew
  | sig h _ hseq _ _ ih =>
      rcases (getElem?_concat_some _ _ _).mp hget with hold | hnew
      · exact ih hold
      · exact hlast h hseq i hnew

theorem Chained.init_iff (h : Chained records next sigSeqFrom) {i : Nat}
    {record : HcsSdRecord} (hget : records[i]? = some record) :
    record.type = .init ↔ i = 0 := by
  have hlast : ∀ {records : List HcsSdRecord} {next sigSeqFrom : UInt64}
      {last : HcsSdRecord}, Chained records next sigSeqFrom →
      last.type ≠ .init → i = records.length ∧ last = record →
      (record.type = .init ↔ i = 0) := by
    rintro records next sigSeqFrom last h htype ⟨rfl, rfl⟩
    have hpos := List.length_pos_of_ne_nil h.ne_nil
    exact iff_of_false htype (by omega)
  induction h with
  | init htype =>
      rw [List.getElem?_singleton] at hget
      split_ifs at hget with hi
      cases hget
      exact iff_of_true htype hi
  | msg h htype _ ih =>
      rcases (getElem?_concat_some _ _ _).mp hget with hold | hnew
      · exact ih hold
      · exact hlast h (by simp [htype]) hnew
  | sig h htype _ _ _ ih =>
      rcases (getElem?_concat_some _ _ _).mp hget with hold | hnew
      · exact ih hold
      · exact hlast h (by simp [htype]) hnew

/-! ## The ranges of the signatures -/

def SignsAt (records : List HcsSdRecord) (i k : Nat) : Prop :=
  ∃ record, records[i]? = some record ∧ record.type = .sig ∧
    record.seqFrom.toNat ≤ k ∧ k ≤ record.seqTo.toNat

structure Partitions (records : List HcsSdRecord) (last : Nat) : Prop where
  covers : ∀ k, (∃ i, SignsAt records i k) ↔ 1 ≤ k ∧ k ≤ last
  once : ∀ i j k, SignsAt records i k → SignsAt records j k → i = j
  ends : ∀ record ∈ records, record.type = .sig →
    record.seqFrom ≤ record.seqTo ∧ record.seqTo = record.seq
  last : 0 < last → ∃ record ∈ records, record.type = .sig ∧
    record.seqTo.toNat = last

theorem signsAt_concat {last : HcsSdRecord} (i k : Nat) :
    SignsAt (records ++ [last]) i k ↔ SignsAt records i k ∨
      (i = records.length ∧ last.type = .sig ∧ last.seqFrom.toNat ≤ k ∧
        k ≤ last.seqTo.toNat) := by
  unfold SignsAt
  constructor
  · rintro ⟨record, hget, hsigns⟩
    rcases (getElem?_concat_some _ _ _).mp hget with hold | ⟨hi, rfl⟩
    · exact .inl ⟨record, hold, hsigns⟩
    · exact .inr ⟨hi, hsigns⟩
  · rintro (⟨record, hold, hsigns⟩ | ⟨hi, hsigns⟩)
    · exact ⟨record, (getElem?_concat_some _ _ _).mpr (.inl hold), hsigns⟩
    · exact ⟨last, (getElem?_concat_some _ _ _).mpr (.inr ⟨hi, rfl⟩), hsigns⟩

theorem partitions_nil : Partitions [] 0 := by
  refine ⟨fun k => ?_, ?_, nofun, nofun⟩
  · exact iff_of_false (by rintro ⟨i, r, hr, -⟩; cases hr) (by omega)
  · rintro i j k ⟨r, hr, -⟩
    cases hr

theorem Partitions.keep {last : Nat} (h : Partitions records last)
    {record : HcsSdRecord} (htype : record.type ≠ .sig) :
    Partitions (records ++ [record]) last := by
  have hsame : ∀ i k, SignsAt (records ++ [record]) i k ↔
      SignsAt records i k := by
    intro i k
    rw [signsAt_concat]
    exact or_iff_left fun hnew => htype hnew.2.1
  refine ⟨?_, ?_, ?_, ?_⟩
  · intro k
    simp only [hsame]
    exact h.covers k
  · intro i j k
    rw [hsame, hsame]
    exact h.once i j k
  · intro r hr
    rcases List.mem_append.mp hr with hold | hnew
    · exact h.ends r hold
    · rw [List.mem_singleton.mp hnew]
      exact fun hsig => absurd hsig htype
  · intro hpos
    obtain ⟨r, hr, hsig⟩ := h.last hpos
    exact ⟨r, List.mem_append_left _ hr, hsig⟩

theorem Partitions.extend {last : Nat} (h : Partitions records last)
    {record : HcsSdRecord} (htype : record.type = .sig)
    (hfrom : record.seqFrom.toNat = last + 1)
    (hle : record.seqFrom ≤ record.seqTo) (hto : record.seqTo = record.seq) :
    Partitions (records ++ [record]) record.seqTo.toNat := by
  rw [UInt64.le_iff_toNat_le] at hle
  have hbelow : ∀ i k, SignsAt records i k → k ≤ last :=
    fun i k hsigns => ((h.covers k).mp ⟨i, hsigns⟩).2
  refine ⟨?_, ?_, ?_, ?_⟩
  · intro k
    simp only [signsAt_concat, exists_or, h.covers, exists_eq_left]
    rw [hfrom]
    simp only [htype, true_and]
    omega
  · intro i j k hi hj
    rcases (signsAt_concat i k).mp hi with hi | ⟨hi, -, hfi, -⟩
    · rcases (signsAt_concat j k).mp hj with hj | ⟨-, -, hfj, -⟩
      · exact h.once i j k hi hj
      · have := hbelow i k hi
        omega
    · rcases (signsAt_concat j k).mp hj with hj | ⟨hj, -⟩
      · have := hbelow j k hj
        omega
      · rw [hi, hj]
  · intro r hr
    rcases List.mem_append.mp hr with hold | hnew
    · exact h.ends r hold
    · rw [List.mem_singleton.mp hnew]
      exact fun _ => ⟨UInt64.le_iff_toNat_le.mpr hle, hto⟩
  · intro _
    exact ⟨record, by simp, htype, rfl⟩

theorem Chained.partitions (h : Chained records next sigSeqFrom)
    (hlen : records.length < 2 ^ 64) :
    Partitions records (lastSigned records) := by
  induction h with
  | @init record htype hseq =>
      have hlast : lastSigned [record] = 0 := by
        unfold lastSigned
        rw [sinceSig_singleton, htype]
        rfl
      rw [hlast]
      exact partitions_nil.keep (by simp [htype])
  | msg h htype _ ih =>
      rw [List.length_append, List.length_singleton] at hlen
      rw [lastSigned_concat, if_neg (by simp [htype])]
      exact (ih (by omega)).keep (by simp [htype])
  | @sig records next sigSeqFrom record h htype hseq hfrom hto ih =>
      rw [List.length_append, List.length_singleton] at hlen
      have hle := Nat.sub_le records.length (sinceSig records)
      change lastSigned records ≤ records.length at hle
      have hfrom' : record.seqFrom.toNat = lastSigned records + 1 := by
        rw [hfrom, h.seqFrom_eq]
        exact UInt64.toNat_ofNat_of_lt (by simp only [UInt64.size]; omega)
      have hto' : record.seqTo.toNat = records.length + 1 := by
        rw [hto, h.next_eq]
        exact UInt64.toNat_ofNat_of_lt (by simp only [UInt64.size]; omega)
      rw [lastSigned_concat, if_pos htype, ← hto']
      apply (ih (by omega)).extend htype hfrom' _ (hto.trans hseq.symm)
      rw [UInt64.le_iff_toNat_le]
      omega

structure ChainRecords (records : List HcsSdRecord) : Prop where
  seq : ∀ i record, records[i]? = some record → record.seq.toNat = i + 1
  init : ∀ i record, records[i]? = some record →
    (record.type = .init ↔ i = 0)
  partitions : Partitions records (lastSigned records)

theorem Chained.chainRecords (h : Chained records next sigSeqFrom)
    (hlen : records.length < 2 ^ 64) : ChainRecords records := by
  refine ⟨fun i record hget => ?_, fun i record hget => h.init_iff hget,
    h.partitions hlen⟩
  have hi := (List.getElem?_eq_some_iff.mp hget).1
  rw [h.seq_eq hget]
  exact UInt64.toNat_ofNat_of_lt (by simp only [UInt64.size]; omega)

end Chained

/-! ## Runs of one worker -/

/-- What a call adds to the log: nothing for an empty text. -/
def written (sd : Bytes) : List Bytes := if sd = [] then [] else [sd]

inductive SignRun (start : Worker ossl) : List Bytes → Worker ossl → Prop where
  | start : SignRun start [] start
  | processMsg {sds : List Bytes} {wrkr : Worker ossl}
      (h : SignRun start sds wrkr) (faults : SignFaults)
      (stateFile : Option Bytes) (payload : Bytes) (bufLen : Nat) {sd : Bytes}
      (hsd : (mmhashchainsigsProcessMsg faults wrkr stateFile payload
        bufLen).1.sd = some sd) :
      SignRun start (sds ++ written sd)
        (mmhashchainsigsProcessMsg faults wrkr stateFile payload
          bufLen).1.wrkr
  | finalSign {sds : List Bytes} {wrkr : Worker ossl}
      (h : SignRun start sds wrkr) (faults : SignFaults) (bufLen : Nat)
      {sd : Bytes}
      (hsd : (mmhashchainsigsFinalSign faults wrkr bufLen).sd = some sd) :
      SignRun start (sds ++ written sd)
        (mmhashchainsigsFinalSign faults wrkr bufLen).wrkr

structure Counted (wrkr : Worker ossl) (records : List HcsSdRecord) :
    Prop where
  count : wrkr.chain.msgCount = wrkr.chain.seq - wrkr.sigSeqFrom
  since : wrkr.chain.msgCount.toNat = sinceSig records
  bound : sinceSig records ≤ max (wrkr.inst.signInterval.toNat - 1) 1

structure Unopened (wrkr : Worker ossl) : Prop where
  isFirst : wrkr.isFirst = true
  seq : wrkr.chain.seq = 1
  msgCount : wrkr.chain.msgCount = 0
  sigSeqFrom : wrkr.sigSeqFrom = 1

structure Tracks (inst : Instance) (wrkr : Worker ossl)
    (records : List HcsSdRecord) : Prop where
  inst : wrkr.inst = inst
  signer : ∃ signer, wrkr.signer = some signer ∧ Loaded wrkr.inst signer
  pendingState : wrkr.pendingState = none
  counted : Counted wrkr records
  chained : (records = [] ∧ Unopened wrkr) ∨ (wrkr.isFirst = false ∧
    Chained records wrkr.chain.seq wrkr.sigSeqFrom)

theorem Unopened.counted {wrkr : Worker ossl} (h : Unopened wrkr) :
    Counted wrkr [] where
  count := by rw [h.msgCount, h.seq, h.sigSeqFrom]; rfl
  since := by rw [h.msgCount]; rfl
  bound := Nat.zero_le _

theorem Counted.entered {wrkr wrkr' : Worker ossl} {signer : SignerCtx ossl}
    {records : List HcsSdRecord} (h : Counted wrkr records) {payload : Bytes}
    {record : HcsSdRecord} (hentered : Entered wrkr signer
      (absorb ossl wrkr.chain payload) record wrkr')
    (hopens : wrkr.isFirst = true → records = []) :
    Counted wrkr' (records ++ [record]) := by
  have hcount : (absorb ossl wrkr.chain payload).msgCount =
      wrkr.chain.msgCount + 1 := rfl
  have hseq : (absorb ossl wrkr.chain payload).seq = wrkr.chain.seq + 1 := rfl
  have hlt : wrkr.chain.msgCount.toNat ≤ 2 ^ 32 := by
    have := wrkr.inst.signInterval.toNat_lt
    rw [h.since]
    have := h.bound
    omega
  have hsucc : (wrkr.chain.msgCount + 1).toNat =
      wrkr.chain.msgCount.toNat + 1 := by
    rw [UInt64.toNat_add]
    exact Nat.mod_eq_of_lt (by simp only [UInt64.reduceToNat]; omega)
  by_cases hsig : record.type = .sig
  · have hchain := hentered.chain
    have hfrom := hentered.sigSeqFrom
    rw [if_pos hsig] at hchain hfrom
    refine ⟨?_, ?_, ?_⟩
    · rw [hchain, hfrom]
      exact (UInt64.sub_self _).symm
    · rw [hchain, sinceSig_concat, if_pos hsig]
      rfl
    · rw [sinceSig_concat, if_pos hsig]
      exact Nat.zero_le _
  · have hchain := hentered.chain
    have hfrom := hentered.sigSeqFrom
    rw [if_neg hsig] at hchain hfrom
    refine ⟨?_, ?_, ?_⟩
    · rw [hchain, hfrom, hcount, hseq, h.count]
      grind
    · rw [hchain, hcount, hsucc, sinceSig_concat, if_neg hsig, h.since]
    · rw [sinceSig_concat, if_neg hsig, hentered.inst]
      by_cases hfirst : wrkr.isFirst = true
      · rw [hopens hfirst]
        exact Nat.le_max_right _ _
      · have hdue : ¬ wrkr.inst.signInterval.toUInt64 ≤
            wrkr.chain.msgCount + 1 := by
          intro hdue
          exact hsig (hentered.due.mpr ⟨by simpa using hfirst, hdue⟩)
        rw [UInt64.le_iff_toNat_le, hsucc, h.since,
          UInt32.toNat_toUInt64] at hdue
        omega

theorem Tracks.entry {inst : Instance} {wrkr : Worker ossl}
    {records : List HcsSdRecord} (h : Tracks inst wrkr records) {signer : SignerCtx ossl}
    (hsigner : wrkr.signer = some signer) {faults : SignFaults}
    {payload sd : Bytes} {bufLen : Nat}
    (hsd : (processEntry faults wrkr signer payload bufLen).sd = some sd) :
    ∃ record, (written sd).map (emittedRecord ossl) = [some record] ∧
      Tracks inst (processEntry faults wrkr signer payload bufLen).wrkr
        (records ++ [record]) := by
  obtain ⟨record, helement, hentered⟩ := processEntry_some hsigner hsd
  obtain ⟨_, hsome, hloaded⟩ := h.signer
  obtain rfl := Option.some.inj (hsigner.symm.trans hsome)
  obtain ⟨signer', hsigner', hsame⟩ := hentered.signer
  have hchain := hentered.chain
  have hfrom := hentered.sigSeqFrom
  have hposition := @absorb_seq_sub ossl wrkr.chain payload
  refine ⟨record, ?_, hentered.inst.trans h.inst, ⟨signer', hsigner', ?_⟩,
    hentered.pendingState.trans h.pendingState,
    h.counted.entered hentered ?_, .inr ⟨hentered.isFirst, ?_⟩⟩
  · rw [written, if_neg helement.ne_nil, List.map_singleton,
      Element.record signer.pubkeyFp_length helement]
  · rw [hentered.inst]
    exact hloaded.congr hsame
  · intro hfirst
    rcases h.chained with ⟨hnil, -⟩ | ⟨hfalse, -⟩
    · exact hnil
    · rw [hfalse] at hfirst
      cases hfirst
  · rw [hchain, hfrom]
    rcases h.chained with ⟨hnil, hfresh⟩ | ⟨hfalse, hchained⟩
    · have hinit := hentered.opens.mpr hfresh.isFirst
      have hseq : (absorb ossl wrkr.chain payload).seq = 2 := by
        rw [show (absorb ossl wrkr.chain payload).seq = wrkr.chain.seq + 1
          from rfl, hfresh.seq]
        rfl
      rw [if_neg (by simp [hinit]), if_neg (by simp [hinit]), hnil, hseq,
        hfresh.sigSeqFrom]
      cases helement with
      | init => exact .init rfl (hposition.trans hfresh.seq)
      | msg => cases hinit
      | sig => cases hinit
    · cases helement with
      | init =>
          have hopens := hentered.opens.mp rfl
          rw [hfalse] at hopens
          cases hopens
      | msg => exact .msg hchained rfl hposition
      | sig => exact .sig hchained rfl hposition rfl hposition

/-- A final signature is the entry of a signature over an empty payload. -/
theorem Tracks.finalSign {inst : Instance} {wrkr : Worker ossl}
    {records : List HcsSdRecord} (h : Tracks inst wrkr records)
    {faults : SignFaults} {sd : Bytes}
    {bufLen : Nat}
    (hsd : (mmhashchainsigsFinalSign faults wrkr bufLen).sd = some sd) :
    ∃ more : List HcsSdRecord,
      (written sd).map (emittedRecord ossl) = more.map some ∧
      Tracks inst (mmhashchainsigsFinalSign faults wrkr bufLen).wrkr
        (records ++ more) := by
  obtain ⟨signer, hsigner, hloaded⟩ := h.signer
  by_cases hcount : wrkr.chain.msgCount = 0
  · rw [finalSign_of_silent (.inr hcount)] at hsd ⊢
    cases hsd
    exact ⟨[], rfl, by rwa [List.append_nil]⟩
  · obtain ⟨record, htype, helement, hwrkr⟩ :=
      finalSign_some hsigner hcount hsd
    have hposition := @absorb_seq_sub ossl wrkr.chain []
    refine ⟨[record], ?_, ?_⟩
    · rw [written, if_neg helement.ne_nil, List.map_singleton,
        Element.record signer.pubkeyFp_length helement]
      rfl
    · rw [hwrkr]
      refine ⟨h.inst, ⟨signer, hsigner, hloaded⟩, h.pendingState, ⟨?_, ?_, ?_⟩,
        ?_⟩
      · exact (UInt64.sub_self _).symm
      · rw [sinceSig_concat, if_pos htype]
        rfl
      · rw [sinceSig_concat, if_pos htype]
        exact Nat.zero_le _
      · rcases h.chained with ⟨-, hfresh⟩ | ⟨hfalse, hchained⟩
        · exact absurd hfresh.msgCount hcount
        · right
          refine ⟨hfalse, ?_⟩
          cases helement with
          | init => cases htype
          | msg => cases htype
          | sig => exact .sig hchained rfl hposition rfl hposition

theorem Tracks.processMsg {inst : Instance} {wrkr : Worker ossl}
    {records : List HcsSdRecord} (h : Tracks inst wrkr records)
    {faults : SignFaults}
    {stateFile : Option Bytes} {payload sd : Bytes} {bufLen : Nat}
    (hsd : (mmhashchainsigsProcessMsg faults wrkr stateFile payload
      bufLen).1.sd = some sd) :
    ∃ record, (written sd).map (emittedRecord ossl) = [some record] ∧
      Tracks inst (mmhashchainsigsProcessMsg faults wrkr stateFile payload
        bufLen).1.wrkr (records ++ [record]) := by
  obtain ⟨signer, hsigner, -⟩ := h.signer
  have hready := readyWorker_of_signer hsigner faults
  have hsome : (readyWorker faults wrkr).1.signer = some signer := by
    rw [hready]
    exact hsigner
  have hnone : (readyWorker faults wrkr).1.pendingState = none := by
    rw [hready]
    exact h.pendingState
  rw [processMsg_of_open hsome hnone] at hsd ⊢
  rw [hready] at hsd ⊢
  exact h.entry hsigner hsd

/-! ## The first message -/

theorem hashchainInit_msgCount (fails : Bool) (alg : HcsHashAlg) :
    (hashchainInit ossl fails alg).1.msgCount = 0 := by
  cases fails <;> rfl

theorem Unopened.processFinal {wrkr : Worker ossl} (h : Unopened wrkr)
    (faults : SignFaults) (signer : SignerCtx ossl) (state : SavedState)
    (payload : Bytes) (bufLen : Nat) :
    Unopened (mmhashchainsigsProcessFinal faults wrkr signer state payload
      bufLen).wrkr := by
  have hreset : ∀ fails alg, Unopened { wrkr with
      chain := (hashchainInit ossl fails alg).1 } := fun fails alg =>
    ⟨h.isFirst, hashchainInit_seq _ _, hashchainInit_msgCount _ _,
      h.sigSeqFrom⟩
  have hfresh : ∀ fails alg, Unopened { wrkr with
      chain := (hashchainInit ossl fails alg).1
      isFirst := true, sigSeqFrom := 1 } := fun fails alg =>
    ⟨rfl, hashchainInit_seq _ _, hashchainInit_msgCount _ _, rfl⟩
  unfold mmhashchainsigsProcessFinal
  split_ifs
  · exact h
  · exact h
  · simp only [hashchainInit_eq faults.finalInit, hashchainUpdate_eq]
    cases faults.finalInit with
    | true => exact ⟨h.isFirst, rfl, rfl, h.sigSeqFrom⟩
    | false =>
        cases faults.finalHash with
        | true => exact hreset _ _
        | false =>
            simp only [Bool.false_eq_true, if_false]
            cases hcsSign ossl faults.finalSign faults.finalNonce
              signer.privkey _ with
            | none => exact hreset _ _
            | some sig =>
                simp only
                cases hcsFormatSdSig _ _ _ _ _ bufLen with
                | none => exact hfresh _ _
                | some text => exact hfresh _ _

structure SignsSaved (state : SavedState) (record : HcsSdRecord) : Prop where
  type : record.type = .sig
  seqFrom : record.seqFrom = state.sigSeqFrom
  seqTo : record.seqTo = state.seq
  seq : record.seq = state.seq

/-- What a worker writes before its own chain: the end of a saved one. -/
def Continuation (pending : Option SavedState)
    (records : List HcsSdRecord) : Prop :=
  records = [] ∨ ∃ state ∈ pending, ∃ record, records = [record] ∧
    SignsSaved state record

/--
Behind the records that the saved chain has in the log, the record continues
their ranges: together they cover the positions up to the saved one.
-/
def ContinuesRanges (pending : Option SavedState)
    (tail : List HcsSdRecord) : Prop :=
  ∀ state ∈ pending, ∀ old, Chained old state.seq state.sigSeqFrom →
    (old ++ tail).length < 2 ^ 64 → tail ≠ [] →
      ChainRecords (old ++ tail) ∧ Partitions (old ++ tail) state.seq.toNat

theorem Continuation.ranges {pending : Option SavedState}
    {tail : List HcsSdRecord} (h : Continuation pending tail) :
    ContinuesRanges pending tail := by
  intro state hstate old hold hlen hne
  obtain ⟨state', hstate', record, rfl, hsaved⟩ := h.resolve_left hne
  cases Option.mem_unique hstate hstate'
  have hall := hold.sig hsaved.type hsaved.seq hsaved.seqFrom hsaved.seqTo
  have hrecords := hall.chainRecords hlen
  have hlast := hrecords.partitions
  rw [lastSigned_concat, if_pos hsaved.type] at hlast
  rw [List.length_append, List.length_singleton] at hlen
  have hseq : state.seq.toNat = old.length + 1 := by
    rw [hold.next_eq]
    exact UInt64.toNat_ofNat_of_lt (by simp only [UInt64.size]; omega)
  rw [hseq]
  exact ⟨hrecords, hlast⟩

theorem processFinal_signsSaved {faults : SignFaults} {wrkr : Worker ossl}
    {signer : SignerCtx ossl} {state : SavedState} {payload sd : Bytes}
    {bufLen : Nat}
    (h : (mmhashchainsigsProcessFinal faults wrkr signer state payload
      bufLen).ret = .ok sd) :
    ∃ record, (written sd).map (emittedRecord ossl) = [some record] ∧
      SignsSaved state record := by
  obtain ⟨-, ⟨nonce, sig, hsig, rfl⟩, -⟩ := processFinal_ok h
  have hposition := @absorb_seq_sub ossl (restoredChain state) payload
  have hrecord := Element.record signer.pubkeyFp_length
    (@Element.sig ossl signer.privkey signer.pubkeyFp _ state.sigSeqFrom _ _
      hsig)
  rw [written, if_neg (elementText_ne_nil _), List.map_singleton, hrecord]
  exact ⟨_, rfl, rfl, rfl, hposition, hposition⟩

theorem Unopened.tracks {wrkr : Worker ossl} (h : Unopened wrkr)
    {signer : SignerCtx ossl} (hsigner : wrkr.signer = some signer)
    (hloaded : Loaded wrkr.inst signer)
    (hpending : wrkr.pendingState = none) : Tracks wrkr.inst wrkr [] :=
  ⟨rfl, ⟨signer, hsigner, hloaded⟩, hpending, h.counted, .inl ⟨rfl, h⟩⟩

theorem Unopened.finished {wrkr : Worker ossl} (h : Unopened wrkr)
    {signer : SignerCtx ossl} (hsigner : wrkr.signer = some signer)
    (hloaded : Loaded wrkr.inst signer) (faults : SignFaults)
    (state : SavedState) (payload : Bytes) (bufLen : Nat) :
    Tracks wrkr.inst (finalCall faults wrkr signer state payload bufLen).wrkr
      [] := by
  have hframe := processFinal_frame faults { wrkr with pendingState := none }
    signer state payload bufLen
  have hdropped : Unopened { wrkr with pendingState := none } :=
    ⟨h.isFirst, h.seq, h.msgCount, h.sigSeqFrom⟩
  have htracks :=
    (hdropped.processFinal faults signer state payload bufLen).tracks
      (hframe.2.1.trans hsigner) (by rw [hframe.1]; exact hloaded) hframe.2.2
  rwa [hframe.1] at htracks

theorem Unopened.firstMsg {start : Worker ossl} {faults : SignFaults}
    {signer : SignerCtx ossl} (h : Unopened (readyWorker faults start).1)
    (hsigner : (readyWorker faults start).1.signer = some signer)
    (hloaded : Loaded (readyWorker faults start).1.inst signer)
    {stateFile : Option Bytes} {payload sd : Bytes} {bufLen : Nat}
    (hsd : (mmhashchainsigsProcessMsg faults start stateFile payload
      bufLen).1.sd = some sd) :
    ∃ tail records, (written sd).map (emittedRecord ossl) =
        (tail ++ records).map some ∧
      Continuation start.pendingState tail ∧
      Tracks (readyWorker faults start).1.inst
        (mmhashchainsigsProcessMsg faults start stateFile payload
          bufLen).1.wrkr records := by
  cases hpending : (readyWorker faults start).1.pendingState with
  | none =>
      rw [processMsg_of_open hsigner hpending] at hsd ⊢
      obtain ⟨record, hwritten, htracks⟩ :=
        (h.tracks hsigner hloaded hpending).entry hsigner hsd
      exact ⟨[], [record], hwritten, .inl rfl, htracks⟩
  | some state =>
      have hfinished := h.finished hsigner hloaded faults state payload bufLen
      cases hret : (finalCall faults (readyWorker faults start).1 signer
          state payload bufLen).ret with
      | ok text =>
          rw [processMsg_of_final_ok hsigner hpending hret] at hsd ⊢
          cases hsd
          obtain ⟨record, hwritten, hsaved⟩ := processFinal_signsSaved hret
          refine ⟨[record], [], hwritten,
            .inr ⟨state, ?_, record, rfl, hsaved⟩, hfinished⟩
          rw [← readyWorker_pending faults start]
          exact hpending
      | error e =>
          rw [processMsg_of_final_error hsigner hpending hret] at hsd ⊢
          have hframe := processFinal_frame faults
            { (readyWorker faults start).1 with pendingState := none } signer
            state payload bufLen
          obtain ⟨record, hwritten, htracks⟩ :=
            hfinished.entry (hframe.2.1.trans hsigner) hsd
          exact ⟨[], [record], hwritten, .inl rfl, htracks⟩

/-! ## The invariant of a run -/

variable (ossl) in
def createdWorker (inst : Instance) (pending : Option SavedState) :
    Worker ossl :=
  { inst := inst, pendingState := pending }

/-- The records that a run has written: the end of a saved chain, and its own. -/
structure Covered (ossl : OpenSSL) (pending : Option SavedState)
    (sds : List Bytes) (tail records : List HcsSdRecord) : Prop where
  parses : sds.map (emittedRecord ossl) = (tail ++ records).map some
  tail : Continuation pending tail

theorem Covered.extend {pending : Option SavedState} {sds more : List Bytes}
    {tail records added : List HcsSdRecord}
    (h : Covered ossl pending sds tail records)
    (hmore : more.map (emittedRecord ossl) = added.map some) :
    Covered ossl pending (sds ++ more) tail (records ++ added) where
  parses := by
    rw [List.map_append, h.parses, hmore, ← List.append_assoc,
      ← List.map_append]
  tail := h.tail

theorem readyWorker_created {faults : SignFaults} {inst : Instance}
    {pending : Option SavedState} {signer : SignerCtx ossl}
    (h : (readyWorker faults (createdWorker ossl inst pending)).1.signer =
      some signer) :
    Loaded inst signer ∧ readyWorker faults (createdWorker ossl inst pending) =
      (startedWorker (createdWorker ossl inst pending) signer, [.init]) := by
  have hnone : (createdWorker ossl inst pending).signer = none := rfl
  unfold readyWorker at h ⊢
  rw [if_neg (by rw [hnone]; simp)] at h ⊢
  rcases mmhashchainsigsInit_cases hnone faults with
    ⟨hfailed, -⟩ | ⟨started, hloaded, hinit⟩
  · rw [hfailed] at h
    cases h
  · rw [hinit] at h ⊢
    cases h
    exact ⟨hloaded, rfl⟩

theorem signRun_tracks {inst : Instance} {pending : Option SavedState}
    {sds : List Bytes} {wrkr : Worker ossl}
    (h : SignRun (createdWorker ossl inst pending) sds wrkr) :
    (sds = [] ∧ wrkr = createdWorker ossl inst pending) ∨
      ∃ tail records, Covered ossl pending sds tail records ∧
        Tracks inst wrkr records := by
  induction h with
  | start => exact .inl ⟨rfl, rfl⟩
  | @processMsg sds wrkr h faults stateFile payload bufLen sd hsd ih =>
      right
      rcases ih with ⟨rfl, rfl⟩ | ⟨tail, records, hcovered, htracks⟩
      · cases hsigner : (readyWorker faults
            (createdWorker ossl inst pending)).1.signer with
        | none =>
            rw [processMsg_of_no_signer hsigner] at hsd
            cases hsd
        | some signer =>
            obtain ⟨hloaded, hready⟩ := readyWorker_created hsigner
            have hunopened : Unopened (readyWorker faults
                (createdWorker ossl inst pending)).1 := by
              rw [hready]
              exact ⟨rfl, rfl, rfl, rfl⟩
            have hinst : (readyWorker faults
                (createdWorker ossl inst pending)).1.inst = inst := by
              rw [hready]
              rfl
            obtain ⟨tail, records, hparses, htail, htracks⟩ :=
              hunopened.firstMsg hsigner (by rwa [hinst]) hsd
            rw [hinst] at htracks
            exact ⟨tail, records, ⟨hparses, htail⟩, htracks⟩
      · obtain ⟨record, hwritten, htracks⟩ := htracks.processMsg hsd
        exact ⟨tail, records ++ [record], hcovered.extend hwritten, htracks⟩
  | @finalSign sds wrkr h faults bufLen sd hsd ih =>
      rcases ih with ⟨rfl, rfl⟩ | ⟨tail, records, hcovered, htracks⟩
      · left
        rw [finalSign_of_silent (.inl rfl)] at hsd ⊢
        cases hsd
        exact ⟨rfl, rfl⟩
      · right
        obtain ⟨more, hwritten, htracks⟩ := htracks.finalSign hsd
        exact ⟨tail, records ++ more, hcovered.extend hwritten, htracks⟩

theorem Tracks.counted_within {inst : Instance} {wrkr : Worker ossl}
    {records : List HcsSdRecord} (h : Tracks inst wrkr records) :
    sinceSig records ≤ max (inst.signInterval.toNat - 1) 1 := by
  rw [← h.inst]
  exact h.counted.bound

theorem Tracks.chainRecords {inst : Instance} {wrkr : Worker ossl}
    {records : List HcsSdRecord} (h : Tracks inst wrkr records)
    (hlen : records.length < 2 ^ 64) : ChainRecords records := by
  rcases h.chained with ⟨rfl, -⟩ | ⟨-, hchained⟩
  · exact ⟨nofun, nofun, partitions_nil⟩
  · exact hchained.chainRecords hlen

/--
After every run of successful calls of one worker, which started fresh or with
a saved state, and which wrote fewer elements than there are positions.
-/
theorem signRun_coverage (ossl : OpenSSL) (inst : Instance)
    (pending : Option SavedState) (sds : List Bytes) (wrkr : Worker ossl)
    (hrun : SignRun (createdWorker ossl inst pending) sds wrkr)
    (hlen : sds.length < 2 ^ 64) :
    ∃ tail records : List HcsSdRecord,
      sds.map (emittedRecord ossl) = (tail ++ records).map some ∧
      Continuation pending tail ∧ ContinuesRanges pending tail ∧
      ChainRecords records ∧
      wrkr.chain.msgCount = wrkr.chain.seq - wrkr.sigSeqFrom ∧
      wrkr.chain.msgCount.toNat = sinceSig records ∧
      sinceSig records ≤ max (inst.signInterval.toNat - 1) 1 := by
  rcases signRun_tracks hrun with
    ⟨rfl, rfl⟩ | ⟨tail, records, hcovered, htracks⟩
  · exact ⟨[], [], rfl, .inl rfl, Continuation.ranges (.inl rfl),
      ⟨nofun, nofun, partitions_nil⟩,
      (UInt64.sub_self _).symm, rfl, Nat.zero_le _⟩
  · have hcount := congrArg List.length hcovered.parses
    rw [List.length_map, List.length_map, List.length_append] at hcount
    exact ⟨tail, records, hcovered.parses, hcovered.tail, hcovered.tail.ranges,
      htracks.chainRecords (by omega), htracks.counted.count,
      htracks.counted.since, htracks.counted_within⟩

def sampleCreated : Worker sampleOpenSSL :=
  createdWorker sampleOpenSSL { privkeyPath := [7] } none

/-! ## Runs of any length -/

theorem Tracks.processMsg_succeeds {inst : Instance} {wrkr : Worker ossl}
    {records : List HcsSdRecord} (h : Tracks inst wrkr records)
    (stateFile : Option Bytes) (payload : Bytes) :
    ∃ sd, (mmhashchainsigsProcessMsg {} wrkr stateFile payload
      Common.Limits.hcsSdMaxLen).1.sd = some sd := by
  obtain ⟨signer, hsigner, hloaded⟩ := h.signer
  have hready := readyWorker_of_signer hsigner {}
  rw [processMsg_of_open (by rw [hready]; exact hsigner)
    (by rw [hready]; exact h.pendingState), hready]
  exact processEntry_succeeds (hloaded.signable rfl (Nat.le_refl _)) rfl
    payload

theorem signRun_of_length (n : Nat) : ∃ sds wrkr,
    SignRun sampleCreated sds wrkr ∧ sds.length = n := by
  induction n with
  | zero => exact ⟨[], sampleCreated, .start, rfl⟩
  | succ n ih =>
      obtain ⟨sds, wrkr, hrun, hlen⟩ := ih
      have hnext : ∃ sd, (mmhashchainsigsProcessMsg {} wrkr none []
          Common.Limits.hcsSdMaxLen).1.sd = some sd ∧
          (written sd).length = 1 := by
        rcases signRun_tracks hrun with
          ⟨-, rfl⟩ | ⟨tail, records, -, htracks⟩
        · have hsome : ∃ sd, (mmhashchainsigsProcessMsg {} sampleCreated none
              [] Common.Limits.hcsSdMaxLen).1.sd = some sd :=
            Option.isSome_iff_exists.mp (by decide +kernel)
          obtain ⟨sd, hsd⟩ := hsome
          obtain ⟨_, _, _, _, record, -, helement⟩ := processMsg_some hsd
          exact ⟨sd, hsd, by rw [written, if_neg helement.ne_nil]; rfl⟩
        · obtain ⟨sd, hsd⟩ := htracks.processMsg_succeeds none []
          obtain ⟨record, hwritten, -⟩ := htracks.processMsg hsd
          have hone := congrArg List.length hwritten
          rw [List.length_map] at hone
          exact ⟨sd, hsd, hone⟩
      obtain ⟨sd, hsd, hone⟩ := hnext
      refine ⟨_, _, hrun.processMsg {} none [] _ hsd, ?_⟩
      rw [List.length_append, hlen, hone]

def savedRecords : List HcsSdRecord :=
  [initRecord .init 1 [] [], msgRecord 2 []]

def savedAtThree : SavedState :=
  savedState (absorb sampleOpenSSL
    (absorb sampleOpenSSL (rootChain sampleOpenSSL .sha256) []) []) 1
    (sampleDigest .sha256 [7])

def resumedWorker : Worker sampleOpenSSL :=
  createdWorker sampleOpenSSL { privkeyPath := [7], signInterval := 2 }
    (some savedAtThree)

def plainCall (wrkr : Worker ossl) : SignCall ossl :=
  (mmhashchainsigsProcessMsg {} wrkr none [] 512).1

def afterCalls (start : Worker ossl) : Nat → Worker ossl
  | 0 => start
  | n + 1 => (plainCall (afterCalls start n)).wrkr

def callTexts (start : Worker ossl) (n : Nat) : List Bytes :=
  (List.range n).filterMap fun i => (plainCall (afterCalls start i)).sd

theorem signRun_calls (start : Worker ossl) {n : Nat}
    (h : ∀ i < n, (plainCall (afterCalls start i)).sd ≠ none) :
    SignRun start (callTexts start n) (afterCalls start n) := by
  induction n with
  | zero => exact .start
  | succ n ih =>
      have hrun := ih fun i hi => h i (by omega)
      obtain ⟨sd, hsd⟩ := Option.ne_none_iff_exists'.mp (h n (by omega))
      obtain ⟨_, _, _, _, _, -, helement⟩ := processMsg_some hsd
      have htexts : callTexts start (n + 1) =
          callTexts start n ++ written sd := by
        unfold callTexts written
        rw [List.range_succ, List.filterMap_append, List.filterMap_cons, hsd,
          List.filterMap_nil, if_neg helement.ne_nil]
      rw [htexts]
      exact hrun.processMsg {} none [] 512 hsd

/-- Three calls: the saved chain is signed, the next one opened and signed. -/
theorem signRun_coverage_sample : ∃ (sds : List Bytes)
    (wrkr : Worker sampleOpenSSL) (tail records : List HcsSdRecord),
    tail.map (·.type) = [.sig] ∧ records.map (·.type) = [.init, .sig] ∧
      sds.map (emittedRecord sampleOpenSSL) = (tail ++ records).map some ∧
      Continuation (some savedAtThree) tail ∧
      ChainRecords (savedRecords ++ tail) ∧
      Partitions (savedRecords ++ tail) 3 ∧ ChainRecords records ∧
      wrkr.chain.msgCount = wrkr.chain.seq - wrkr.sigSeqFrom ∧
      wrkr.chain.msgCount.toNat = sinceSig records ∧
      sinceSig records ≤ max ((2 : UInt32).toNat - 1) 1 := by
  have hrun := @signRun_calls sampleOpenSSL resumedWorker 3 (by decide +kernel)
  obtain ⟨tail, records, hparses, htail, hranges, hrecords, hcount⟩ :=
    signRun_coverage sampleOpenSSL _ _ _ _ hrun (by decide +kernel)
  have htypes : (callTexts resumedWorker 3).map (fun sd =>
      (emittedRecord sampleOpenSSL sd).map (·.type)) =
        [some .sig, some .init, some .sig] := by decide +kernel
  have hall : (tail ++ records).map (·.type) = [.sig, .init, .sig] := by
    have hsame := congrArg (List.map (Option.map (·.type))) hparses
    rw [List.map_map, List.map_map] at hsame
    apply List.map_injective_iff.mpr (Option.some_injective _)
    rw [List.map_map]
    exact hsame.symm.trans htypes
  have hsaved : Chained savedRecords savedAtThree.seq savedAtThree.sigSeqFrom :=
    .msg (.init rfl rfl) rfl rfl
  rcases htail with rfl | ⟨state, hstate, record, rfl, hsigns⟩
  · -- The first record of a chain would be an INIT record.
    cases records with
    | nil => cases hall
    | cons record records =>
        have hinit := (hrecords.init 0 record rfl).mpr rfl
        rw [List.nil_append, List.map_cons, hinit] at hall
        cases hall
  · have hold := hranges _ rfl _ hsaved (by simp [savedRecords])
      (List.cons_ne_nil _ _)
    rw [List.map_append] at hall
    exact ⟨_, _, [record], records, congrArg (fun type => [type]) hsigns.type,
      (List.cons.inj hall).2, hparses,
      .inr ⟨state, hstate, record, rfl, hsigns⟩, hold.1, hold.2, hrecords,
      hcount⟩

/-- The position of the last of this many records is written as zero. -/
theorem position_wraps : ∃ sds wrkr, SignRun sampleCreated sds wrkr ∧
    ¬ ∃ tail records : List HcsSdRecord,
      sds.map (emittedRecord sampleOpenSSL) = (tail ++ records).map some ∧
      Continuation none tail ∧ ChainRecords records := by
  obtain ⟨sds, wrkr, hrun, hlen⟩ := signRun_of_length (2 ^ 64)
  refine ⟨sds, wrkr, hrun, ?_⟩
  rintro ⟨tail, records, hparses, htail, hrecords⟩
  have hnone : ∀ {tail}, Continuation none tail → tail = [] := by
    rintro tail (hnil | ⟨state, hstate, -⟩)
    · exact hnil
    · cases hstate
  rcases signRun_tracks hrun with
    ⟨rfl, -⟩ | ⟨tail', records', hcovered, htracks⟩
  · cases hlen
  · have hsame : records' = records := by
      have heq := hcovered.parses.symm.trans hparses
      rw [hnone hcovered.tail, hnone htail, List.nil_append,
        List.nil_append] at heq
      exact List.map_injective_iff.mpr (Option.some_injective _) heq
    have hcount := congrArg List.length hparses
    rw [hnone htail, List.nil_append, List.length_map, List.length_map,
      hlen] at hcount
    have hpos : 2 ^ 64 - 1 < records.length := by omega
    have hget := List.getElem?_eq_getElem hpos
    have hseq := hrecords.seq _ _ hget
    rcases htracks.chained with ⟨hnil, -⟩ | ⟨-, hchained⟩
    · rw [← hsame, hnil] at hcount
      cases hcount
    · rw [hsame] at hchained
      rw [hchained.seq_eq hget] at hseq
      revert hseq
      decide

end MmHashChainSigs.Module
