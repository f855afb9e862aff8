import MmHashChainSigs.Common.HexText
import MmHashChainSigs.Module.State

/-!
# The digest of a loaded state

The algorithm and the digest of a state file stand on lines of their own, and
the last of each kind counts.  No line is compared with another, so the two
need not belong together.
-/

namespace MmHashChainSigs.Module

open MmHashChainSigs.Foundation
open MmHashChainSigs.Common

variable {ossl : OpenSSL}

/-! ## What a line says -/

def lineName (line : Bytes) : Option Bytes :=
  scanField "hashalgo=" (scanS 63) line

def lineAlg (line : Bytes) : Option HcsHashAlg :=
  (lineName line).bind hcsHashFromName

def NamesUnknown (line : Bytes) : Prop :=
  ∃ name, lineName line = some name ∧ hcsHashFromName name = none

def decodesAsHash (val : Bytes) : Bool :=
  match hcsHashAlgFromHexLen val.length with
  | none => false
  | some alg => (hcsHexDecode val (hcsHashLen alg)).isSome

def decodesAsFp (val : Bytes) : Bool :=
  val.length = 2 * Common.Limits.hcsHashLen &&
    (hcsHexDecode val Common.Limits.hcsHashLen).isSome

def fieldBit (line : Bytes) : Nat :=
  match lineName line with
  | some _ => 0
  | none =>
      match scanField "chain_hash=" (scanS 128) line with
      | some val => if decodesAsHash val then 1 else 0
      | none =>
          match scanField "seq=" scanLu line with
          | some _ => 2
          | none =>
              match scanField "sig_seq_from=" scanLu line with
              | some _ => 4
              | none =>
                  match scanField "pubkey_fp=" (scanS 64) line with
                  | some val => if decodesAsFp val then 8 else 0
                  | none => 0

theorem fieldBit_mem (line : Bytes) : fieldBit line ∈ [0, 1, 2, 4, 8] := by
  unfold fieldBit
  repeat' split
  all_goals simp

theorem loadChainHash_got (load : StateLoad) (val : Bytes) :
    (loadChainHash load val).st.hashAlg = load.st.hashAlg ∧
      (loadChainHash load val).got =
        load.got ||| (if decodesAsHash val then 1 else 0) := by
  unfold loadChainHash decodesAsHash
  cases hcsHashAlgFromHexLen val.length with
  | none => simp
  | some alg =>
      refine ⟨rfl, ?_⟩
      simp only
      split_ifs <;> simp

theorem loadPubkeyFp_got (load : StateLoad) {val : Bytes}
    (hlen : val.length = 2 * Common.Limits.hcsHashLen) :
    (loadPubkeyFp load val).st.hashAlg = load.st.hashAlg ∧
      (loadPubkeyFp load val).got =
        load.got ||| (if decodesAsFp val then 8 else 0) := by
  unfold loadPubkeyFp decodesAsFp
  refine ⟨rfl, ?_⟩
  simp only [hlen, decide_true, Bool.true_and]
  split_ifs <;> simp

theorem loadLine_cases (load : StateLoad) (line : Bytes) :
    (loadLine load line = none ∧ NamesUnknown line) ∨
      ∃ next, loadLine load line = some next ∧ ¬ NamesUnknown line ∧
        next.st.hashAlg = (lineAlg line).getD load.st.hashAlg ∧
        next.got = load.got ||| fieldBit line := by
  unfold loadLine NamesUnknown lineAlg fieldBit lineName
  cases hname : scanField "hashalgo=" (scanS 63) line with
  | some name =>
      simp only [Option.some.injEq, exists_eq_left', Option.bind_some]
      cases halg : hcsHashFromName name with
      | none => simp
      | some alg => simp
  | none =>
      right
      simp only [reduceCtorEq, false_and, exists_false, not_false_eq_true,
        Option.bind_none, Option.getD_none, true_and]
      cases scanField "chain_hash=" (scanS 128) line with
      | some val => exact ⟨_, rfl, loadChainHash_got load val⟩
      | none =>
          simp only
          cases scanField "seq=" scanLu line with
          | some n => exact ⟨_, rfl, rfl, rfl⟩
          | none =>
              simp only
              cases scanField "sig_seq_from=" scanLu line with
              | some n => exact ⟨_, rfl, rfl, rfl⟩
              | none =>
                  simp only
                  cases scanField "pubkey_fp=" (scanS 64) line with
                  | none => exact ⟨_, rfl, rfl, by simp⟩
                  | some val =>
                      simp only
                      by_cases hlen :
                          val.length = 2 * Common.Limits.hcsHashLen
                      · rw [if_pos hlen]
                        exact ⟨_, rfl, loadPubkeyFp_got load hlen⟩
                      · rw [if_neg hlen]
                        refine ⟨_, rfl, rfl, ?_⟩
                        simp [decodesAsFp, hlen]

/-! ## What a file says -/

def lastAlg (lines : List Bytes) (default : HcsHashAlg) : HcsHashAlg :=
  (lines.filterMap lineAlg).getLast?.getD default

theorem lastAlg_cons (line : Bytes) (lines : List Bytes)
    (default : HcsHashAlg) :
    lastAlg (line :: lines) default =
      lastAlg lines ((lineAlg line).getD default) := by
  unfold lastAlg
  cases halg : lineAlg line with
  | none => rw [List.filterMap_cons_none halg, Option.getD_none]
  | some alg =>
      rw [List.filterMap_cons_some halg, List.getLast?_cons]
      rfl

theorem foldlM_loadLine (lines : List Bytes) (load : StateLoad) :
    (lines.foldlM loadLine load = none ∧
        ∃ line ∈ lines, NamesUnknown line) ∨
      ∃ next, lines.foldlM loadLine load = some next ∧
        (∀ line ∈ lines, ¬ NamesUnknown line) ∧
        next.st.hashAlg = lastAlg lines load.st.hashAlg ∧
        next.got = (lines.map fieldBit).foldl (· ||| ·) load.got := by
  induction lines generalizing load with
  | nil => exact .inr ⟨load, rfl, nofun, rfl, rfl⟩
  | cons line lines ih =>
      rw [List.foldlM_cons]
      rcases loadLine_cases load line with
        ⟨hnone, hunknown⟩ | ⟨next, hnext, hknown, halg, hgot⟩
      · left
        rw [hnone]
        exact ⟨rfl, line, List.mem_cons_self, hunknown⟩
      · rw [hnext]
        rcases ih next with ⟨hnone, hunknown⟩ | ⟨last, hlast, hall, hrest⟩
        · left
          obtain ⟨line', hmem, hline'⟩ := hunknown
          exact ⟨hnone, line', List.mem_cons_of_mem _ hmem, hline'⟩
        · right
          refine ⟨last, hlast, List.forall_mem_cons.mpr ⟨hknown, hall⟩, ?_⟩
          rw [lastAlg_cons, ← halg, List.map_cons, List.foldl_cons, ← hgot]
          exact hrest

theorem or_eq_fifteen_iff {bits : List Nat}
    (hbits : ∀ bit ∈ bits, bit ∈ [0, 1, 2, 4, 8]) {got : Nat}
    (hgot : got < 16) :
    bits.foldl (· ||| ·) got = 15 ↔
      ∀ bit ∈ [1, 2, 4, 8], bit ∈ bits ∨ got &&& bit = bit := by
  induction bits generalizing got with
  | nil =>
      simp only [List.foldl_nil, List.not_mem_nil, false_or]
      revert got
      decide
  | cons first bits ih =>
      rw [List.forall_mem_cons] at hbits
      obtain ⟨hfirst, hbits⟩ := hbits
      have hstep : ∀ got < 16, ∀ first ∈ [0, 1, 2, 4, 8],
          got ||| first < 16 ∧ ∀ bit ∈ [1, 2, 4, 8],
            ((got ||| first) &&& bit = bit ↔
              bit = first ∨ got &&& bit = bit) := by
        decide
      obtain ⟨hlt, hstep⟩ := hstep got hgot first hfirst
      rw [List.foldl_cons, ih hbits hlt]
      constructor
      · intro h bit hbit
        rw [List.mem_cons]
        rcases h bit hbit with hmem | hor
        · exact .inl (.inr hmem)
        · rcases (hstep bit hbit).mp hor with hbit' | hand
          · exact .inl (.inl hbit')
          · exact .inr hand
      · intro h bit hbit
        rw [hstep bit hbit]
        rcases h bit hbit with hmem | hand
        · rcases List.mem_cons.mp hmem with hbit' | hmem
          · exact .inr (.inl hbit')
          · exact .inl hmem
        · exact .inr (.inr hand)

def fieldLines (file : Bytes) : List Bytes :=
  (fgetsLines stateLineSize file).tail

/--
The file starts with the magic text, names no unknown algorithm, and has a
line for each of the other fields.
-/
structure Loadable (file : Bytes) : Prop where
  magic : ∃ first ∈ (fgetsLines stateLineSize file).head?,
    stateMagic <+: first
  known : ∀ line ∈ fieldLines file, ¬ NamesUnknown line
  complete : ∀ bit ∈ [1, 2, 4, 8], ∃ line ∈ fieldLines file,
    fieldBit line = bit

theorem loadable_bits_iff (lines : List Bytes) :
    (lines.map fieldBit).foldl (· ||| ·) 0 = 15 ↔
      ∀ bit ∈ [1, 2, 4, 8], ∃ line ∈ lines, fieldBit line = bit := by
  have hbits : ∀ bit ∈ lines.map fieldBit, bit ∈ [0, 1, 2, 4, 8] := by
    intro bit hbit
    obtain ⟨line, -, rfl⟩ := List.mem_map.mp hbit
    exact fieldBit_mem line
  rw [or_eq_fifteen_iff hbits (by decide)]
  simp

theorem loadState_some {fails : Bool} {file : Bytes} {st : SavedState}
    (h : mmhashchainsigsLoadState fails (some file) = some st) :
    Loadable file ∧ st.hashAlg = lastAlg (fieldLines file) .sha256 := by
  unfold mmhashchainsigsLoadState at h
  rw [Option.bind_eq_bind, Option.bind_some] at h
  cases hlines : fgetsLines stateLineSize file with
  | nil =>
      rw [hlines] at h
      cases h
  | cons first lines =>
      rw [hlines] at h
      simp only at h
      split_ifs at h with hmagic hfails
      have htail : fieldLines file = lines := by
        unfold fieldLines
        rw [hlines]
        rfl
      rcases foldlM_loadLine lines {} with
        ⟨hnone, -⟩ | ⟨load, hload, hknown, halg, hgot⟩
      · rw [hnone] at h
        cases h
      · rw [hload, Option.bind_eq_bind, Option.bind_some] at h
        split_ifs at h with hcomplete
        cases h
        rw [hgot, not_not, loadable_bits_iff] at hcomplete
        refine ⟨⟨⟨first, by rw [hlines]; rfl, hmagic⟩, ?_, ?_⟩, ?_⟩
        · rwa [htail]
        · rwa [htail]
        · rwa [htail]

theorem Loadable.loads {file : Bytes} (h : Loadable file) :
    ∃ st, mmhashchainsigsLoadState false (some file) = some st := by
  obtain ⟨⟨first, hfirst, hmagic⟩, hknown, hcomplete⟩ := h
  unfold mmhashchainsigsLoadState
  unfold fieldLines at hknown hcomplete
  rw [Option.bind_eq_bind, Option.bind_some]
  cases hlines : fgetsLines stateLineSize file with
  | nil =>
      rw [hlines] at hfirst
      cases hfirst
  | cons first' lines =>
      rw [hlines] at hfirst hknown hcomplete
      cases hfirst
      rcases foldlM_loadLine lines {} with
        ⟨-, line, hmem, hunknown⟩ | ⟨load, hload, -, -, hgot⟩
      · exact absurd hunknown (hknown line hmem)
      · rw [← loadable_bits_iff] at hcomplete
        rw [List.tail_cons] at hcomplete
        refine ⟨load.st, ?_⟩
        simp only
        rw [if_neg (not_not.mpr hmagic), if_neg Bool.false_ne_true, hload,
          Option.bind_eq_bind, Option.bind_some, if_neg (by
            rw [hgot, not_not]
            exact hcomplete)]

/-! ## The text of the digest -/

def digestWord (rest : Bytes) : Bytes :=
  ((rest.drop (ascii "chain_hash=").length).dropWhile isSpace).takeWhile
    (! isSpace ·)

/-- The text of the last digest that is accepted, as it stands in the file. -/
def acceptedText (file : Bytes) : Option Bytes :=
  ((fgetsCalls stateLineSize file).tail.filterMap fun call =>
    if fieldBit call.1 = 1 then some (digestWord call.2) else none).getLast?

def SpellsDigest (text : Bytes) (alg : HcsHashAlg) : Prop :=
  text.length = 2 * hcsHashLen alg ∧ ∀ c ∈ text, isHex c

instance (text : Bytes) (alg : HcsHashAlg) :
    Decidable (SpellsDigest text alg) :=
  inferInstanceAs (Decidable (_ ∧ _))

/--
A state that is loaded has a digest of its own algorithm, and so has the chain
that is resumed from it.
-/
structure SelfConsistent (ossl : OpenSSL) (file : Bytes) : Prop where
  width : ∀ fails st, mmhashchainsigsLoadState fails (some file) = some st →
    ∃ text, acceptedText file = some text ∧ SpellsDigest text st.hashAlg
  resumed : ∀ fails st, mmhashchainsigsLoadState fails (some file) = some st →
    ∀ faults (wrkr : Worker ossl) signer payload bufLen,
      (mmhashchainsigsProcessFinal faults wrkr signer st payload
        bufLen).steps ≠ [] →
      ∃ text, acceptedText file = some text ∧
        SpellsDigest text wrkr.inst.hashAlg

/--
The last accepted digest is spelled by as many hexadecimal digits as the last
algorithm, or SHA-256 if none is named, has.
-/
def WidthsAgree (file : Bytes) : Prop :=
  ∃ text, acceptedText file = some text ∧
    SpellsDigest text (lastAlg (fieldLines file) .sha256)

theorem processFinal_alg {faults : SignFaults} {wrkr : Worker ossl}
    {signer : SignerCtx ossl} {st : SavedState} {payload : Bytes}
    {bufLen : Nat}
    (h : (mmhashchainsigsProcessFinal faults wrkr signer st payload
      bufLen).steps ≠ []) : st.hashAlg = wrkr.inst.hashAlg := by
  unfold mmhashchainsigsProcessFinal at h
  by_contra halg
  apply h
  rw [if_pos halg, ite_self]

/--
Loading gives a consistent state, if any, exactly when a loadable file has a
digest and an algorithm that belong together.
-/
theorem selfConsistent_iff (ossl : OpenSSL) (file : Bytes) :
    SelfConsistent ossl file ↔ (Loadable file → WidthsAgree file) := by
  constructor
  · intro h hloadable
    obtain ⟨st, hst⟩ := hloadable.loads
    obtain ⟨text, htext, hspells⟩ := h.width false st hst
    rw [(loadState_some hst).2] at hspells
    exact ⟨text, htext, hspells⟩
  · intro h
    have hwidth : ∀ fails st,
        mmhashchainsigsLoadState fails (some file) = some st →
        ∃ text, acceptedText file = some text ∧
          SpellsDigest text st.hashAlg := by
      intro fails st hst
      obtain ⟨hloadable, halg⟩ := loadState_some hst
      rw [halg]
      exact h hloadable
    constructor
    · exact hwidth
    · intro fails st hst faults wrkr signer payload bufLen hsteps
      rw [← processFinal_alg hsteps]
      exact hwidth fails st hst

def mixedFile : Bytes :=
  stateMagic ++ ascii "\nhashalgo=sha512\nchain_hash=" ++
    List.replicate 64 97 ++ ascii "\nseq=2\nsig_seq_from=1\npubkey_fp=" ++
    List.replicate 64 98 ++ ascii "\n"

theorem mixed_state_loaded :
    (mmhashchainsigsLoadState false (some mixedFile)).map
        (fun st => (st.hashAlg, st.chainHash.drop 32)) =
      some (.sha512, List.replicate 32 0) ∧
    ¬ SelfConsistent sampleOpenSSL mixedFile := by
  have hload : (mmhashchainsigsLoadState false (some mixedFile)).map
      (fun st => (st.hashAlg, st.chainHash.drop 32)) =
      some (.sha512, List.replicate 32 0) := by decide +kernel
  refine ⟨hload, ?_⟩
  intro h
  obtain ⟨st, hst, hpair⟩ := Option.map_eq_some_iff.mp hload
  obtain ⟨text, htext, hlen, -⟩ := h.width false st hst
  rw [(Prod.mk.inj hpair).1] at hlen
  have haccepted : (acceptedText mixedFile).map List.length = some 64 := by
    decide +kernel
  rw [htext] at haccepted
  rw [Option.map_some, Option.some.injEq, hlen] at haccepted
  exact absurd haccepted (by decide)

end MmHashChainSigs.Module
