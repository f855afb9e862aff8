import MmHashChainSigs.Common.RoundTrip
import MmHashChainSigs.Module.Worker

/-!
# The state file

`mmhashchainsigs_save_state` and `mmhashchainsigs_load_state`: a magic line,
then one `key=value` line for each field.  Loading is line oriented and takes
the keys in any order, so every line is a step on a partial state.
-/

namespace MmHashChainSigs.Module

open MmHashChainSigs.Foundation
open MmHashChainSigs.Common

variable {ossl : OpenSSL}

def stateMagic : Bytes := ascii "MMHASHCHAINSIGS_STATE_V1"

def stateLineSize : Nat := 256

/-! ## Saving -/

def stateText (chain : HashchainCtx) (sigSeqFrom : UInt64) (fp : Bytes) :
    Bytes :=
  stateMagic ++ ascii "\nhashalgo=" ++ hcsHashName chain.alg ++
    ascii "\nchain_hash=" ++ hcsHexEncode chain.current ++
    ascii "\nseq=" ++ decimal chain.seq.toNat ++
    ascii "\nsig_seq_from=" ++ decimal sigSeqFrom.toNat ++
    ascii "\npubkey_fp=" ++ hcsHexEncode fp ++ ascii "\n"

/--
The return code and the state file.  `fails` is an error of a file operation,
which leaves the old file in place.
-/
def mmhashchainsigsSaveState (fails : Bool) (wrkr : Worker ossl)
    (stateFile : Option Bytes) : Int × Option Bytes :=
  match wrkr.signer with
  | none => (0, stateFile)
  | some signer =>
      if wrkr.chain.msgCount = 0 then (0, stateFile)
      else if fails then (-1, stateFile)
      else (1, some (stateText wrkr.chain wrkr.sigSeqFrom signer.pubkeyFp))

/-! ## Loading -/

/-- The partial state and the bits of the fields that were found. -/
structure StateLoad where
  st : SavedState := {}
  got : Nat := 0

def loadChainHash (load : StateLoad) (val : Bytes) : StateLoad :=
  match hcsHashAlgFromHexLen val.length with
  | none => load
  | some alg =>
      let written := hexWritten (hcsHashLen alg) val
      { st :=
          { load.st with
            chainHash := overlay load.st.chainHash written
            chainHash_length :=
              (overlay_length _ _).trans load.st.chainHash_length }
        got :=
          if (hcsHexDecode val (hcsHashLen alg)).isSome then load.got ||| 1
          else load.got }

def loadPubkeyFp (load : StateLoad) (val : Bytes) : StateLoad :=
  { st :=
      { load.st with
        pubkeyFp := overlay load.st.pubkeyFp
          (hexWritten Common.Limits.hcsHashLen val) }
    got :=
      if (hcsHexDecode val Common.Limits.hcsHashLen).isSome then load.got ||| 8
      else load.got }

def scanField {ρ : Type} (key : String) (directive : Bytes → Option ρ)
    (line : Bytes) : Option ρ :=
  (scanLiteral (ascii key) line).bind directive

/-- One line; `none` is the early return for an unknown algorithm. -/
def loadLine (load : StateLoad) (line : Bytes) : Option StateLoad :=
  match scanField "hashalgo=" (scanS 63) line with
  | some val =>
      (hcsHashFromName val).map fun alg =>
        { load with st := { load.st with hashAlg := alg } }
  | none =>
      match scanField "chain_hash=" (scanS 128) line with
      | some val => some (loadChainHash load val)
      | none =>
          match scanField "seq=" scanLu line with
          | some n =>
              some { st := { load.st with seq := n }, got := load.got ||| 2 }
          | none =>
              match scanField "sig_seq_from=" scanLu line with
              | some n =>
                  some { st := { load.st with sigSeqFrom := n }
                         got := load.got ||| 4 }
              | none =>
                  match scanField "pubkey_fp=" (scanS 64) line with
                  | some val =>
                      if val.length = 2 * Common.Limits.hcsHashLen then
                        some (loadPubkeyFp load val)
                      else some load
                  | none => some load

/-- `fails` is the allocation of the state; no file is `none`. -/
def mmhashchainsigsLoadState (fails : Bool) (stateFile : Option Bytes) :
    Option SavedState := do
  let file ← stateFile
  match fgetsLines stateLineSize file with
  | [] => none
  | first :: lines =>
      if ¬ stateMagic <+: first then none
      else if fails then none
      else do
        let load ← lines.foldlM loadLine {}
        if load.got ≠ 15 then none else some load.st

theorem mmhashchainsigsLoadState_fails (stateFile : Option Bytes) :
    mmhashchainsigsLoadState true stateFile = none := by
  unfold mmhashchainsigsLoadState
  cases stateFile with
  | none => rfl
  | some file =>
      simp only [Option.bind_eq_bind, Option.bind_some, if_true]
      split
      · rfl
      · split_ifs <;> rfl

/-! ## Loading what was saved -/

theorem scanLiteral_append (literal rest : Bytes) :
    scanLiteral literal (literal ++ rest) = some rest := by
  simp [scanLiteral]

theorem scanS_word {width : Nat} {word : Bytes} (hne : word ≠ [])
    (hword : ∀ c ∈ word, isSpace c = false) (hlen : word.length ≤ width) :
    scanS width (word ++ [10]) = some word := by
  obtain ⟨c, rest, rfl⟩ := List.exists_cons_of_ne_nil hne
  have hdrop : ((c :: rest) ++ [10]).dropWhile isSpace =
      (c :: rest) ++ [10] := by
    rw [List.cons_append, List.dropWhile_cons_of_neg]
    simp [hword c (by simp)]
  have htake : ((c :: rest) ++ [10]).takeWhile (! isSpace ·) = c :: rest := by
    rw [List.takeWhile_append_of_pos (by simpa using hword)]
    simp [isSpace]
  simp only [scanS, hdrop, htake, List.take_of_length_le hlen]
  rfl

theorem scanLu_decimal (n : UInt64) :
    scanLu (decimal n.toNat ++ [10]) = some n := by
  have hscan := @strtoull_decimal _ n.toNat_lt [10] (by simp [isDigit])
  have hne : ([10] : Bytes) ≠ decimal n.toNat ++ [10] := by
    intro h
    have hlen := congrArg List.length h
    have hpos := decimal_length_pos n.toNat
    simp only [List.length_append, List.length_singleton] at hlen
    omega
  simp [scanLu, hscan, hne]

def Word (text : Bytes) : Prop := ∀ c ∈ text, isSpace c = false ∧ c ≠ 0

instance (text : Bytes) : Decidable (Word text) :=
  decidable_of_iff (text.all fun c => decide (isSpace c = false ∧ c ≠ 0))
    (by simp only [List.all_eq_true, decide_eq_true_eq, Word])

theorem Word.append {first second : Bytes} (h : Word first)
    (h' : Word second) : Word (first ++ second) := by
  intro c hc
  rcases List.mem_append.mp hc with hc | hc
  · exact h c hc
  · exact h' c hc

theorem word_decimal (n : Nat) : Word (decimal n) := by
  intro c hc
  have hdigit := decimal_isDigit hc
  refine ⟨not_isSpace_of_isDigit hdigit, ?_⟩
  rintro rfl
  exact absurd hdigit (by decide)

theorem word_hexText (bytes : Bytes) : Word (hexText bytes) := by
  intro c hc
  obtain ⟨n, hn, rfl⟩ := mem_hexText hc
  refine ⟨not_isSpace_hexDigit hn, ?_⟩
  interval_cases n <;> decide

theorem word_hcsHashName (alg : HcsHashAlg) : Word (hcsHashName alg) := by
  cases alg <;> decide +kernel

theorem fgetsLines_word {text : Bytes} (h : Word text)
    (hlen : text.length + 1 < stateLineSize) (file : Bytes) :
    fgetsLines stateLineSize (text ++ 10 :: file) =
      (text ++ [10]) :: fgetsLines stateLineSize file := by
  apply fgetsLines_line _ _ hlen
  · intro hmem
    exact absurd (h 10 hmem).1 (by decide)
  · intro hmem
    exact (h 0 hmem).2 rfl

def stateLines (chain : HashchainCtx) (sigSeqFrom : UInt64) (fp : Bytes) :
    List Bytes :=
  [ascii "hashalgo=" ++ hcsHashName chain.alg,
   ascii "chain_hash=" ++ hexText chain.current,
   ascii "seq=" ++ decimal chain.seq.toNat,
   ascii "sig_seq_from=" ++ decimal sigSeqFrom.toNat,
   ascii "pubkey_fp=" ++ hexText fp]

theorem stateText_eq (chain : HashchainCtx) (sigSeqFrom : UInt64)
    (fp : Bytes) :
    stateText chain sigSeqFrom fp = stateMagic ++ 10 ::
      (stateLines chain sigSeqFrom fp).flatMap (· ++ [10]) := by
  simp only [stateText, stateLines, List.flatMap_cons, List.flatMap_nil,
    List.append_assoc, hcsHexEncode, List.append_nil]
  rfl

theorem stateLines_word {chain : HashchainCtx} {sigSeqFrom : UInt64}
    {fp : Bytes} (hfp : fp.length = Common.Limits.hcsHashLen) :
    ∀ line ∈ stateLines chain sigSeqFrom fp,
      Word line ∧ line.length + 1 < stateLineSize := by
  have hname : (hcsHashName chain.alg).length ≤ 6 := by
    cases chain.alg <;> decide
  have hcurrent : (hexText chain.current).length ≤ 128 := by
    rw [hexText_length, chain.current_length]
    have := hcsHashLen_le chain.alg
    simp only [Common.Limits.hcsHashMaxLen] at this
    omega
  have hnumber : ∀ n : UInt64, (decimal n.toNat).length ≤ 20 := by
    intro n
    have hn := n.toNat_lt
    exact decimal_length_le (by decide) (by omega)
  have hhex : (hexText fp).length = 64 := by
    rw [hexText_length, hfp]
    rfl
  have hword : ∀ {key : String} {text : Bytes}, Word (ascii key) →
      Word text → (ascii key).length + text.length + 1 < stateLineSize →
      Word (ascii key ++ text) ∧
        (ascii key ++ text).length + 1 < stateLineSize := by
    intro key text hkey htext hlen
    exact ⟨hkey.append htext, by rwa [List.length_append]⟩
  have hseq := hnumber chain.seq
  have hfrom := hnumber sigSeqFrom
  simp only [stateLines, List.forall_mem_cons]
  refine ⟨hword (by decide +kernel) (word_hcsHashName _) ?_,
    hword (by decide +kernel) (word_hexText _) ?_,
    hword (by decide +kernel) (word_decimal _) ?_,
    hword (by decide +kernel) (word_decimal _) ?_,
    hword (by decide +kernel) (word_hexText _) ?_, by simp⟩
  all_goals simp [ascii, stateLineSize, -hexText_length]; omega

theorem fgetsLines_words {lines : List Bytes}
    (h : ∀ line ∈ lines, Word line ∧ line.length + 1 < stateLineSize) :
    fgetsLines stateLineSize (lines.flatMap (· ++ [10])) =
      lines.map (· ++ [10]) := by
  induction lines with
  | nil => rfl
  | cons line lines ih =>
      obtain ⟨hline, hlen⟩ := h line (by simp)
      rw [List.flatMap_cons, List.append_assoc, List.singleton_append,
        fgetsLines_word hline hlen, ih fun line hline => h line (by simp [hline]),
        List.map_cons]

/-! ### One line at a time -/

theorem scanField_self {ρ : Type} (key : String)
    (directive : Bytes → Option ρ) (rest : Bytes) :
    scanField key directive (ascii key ++ rest) = directive rest := by
  simp [scanField, scanLiteral_append]

theorem scanField_of_not_prefix {ρ : Type} {key : String} {line : Bytes}
    (h : ¬ ascii key <+: line) (directive : Bytes → Option ρ) :
    scanField key directive line = none := by
  simp [scanField, scanLiteral, h]

theorem not_prefix_of_key {key other : Bytes}
    (h : ¬ key.take other.length <+: other) (rest : Bytes) :
    ¬ key <+: other ++ rest := by
  intro hkey
  apply h
  apply List.prefix_of_prefix_length_le ((List.take_prefix _ _).trans hkey)
    (List.prefix_append _ _)
  rw [List.length_take]
  exact Nat.min_le_left _ _

variable (load : StateLoad)

theorem loadLine_hashalgo (alg : HcsHashAlg) :
    loadLine load (ascii "hashalgo=" ++ (hcsHashName alg ++ [10])) =
      some { load with st := { load.st with hashAlg := alg } } := by
  have hscan : scanS 63 (hcsHashName alg ++ [10]) =
      some (hcsHashName alg) := by
    apply scanS_word
    · cases alg <;> decide
    · exact fun c hc => (word_hcsHashName alg c hc).1
    · cases alg <;> decide
  simp only [loadLine, scanField_self, hscan, hcsHashFromName_hcsHashName,
    Option.map_some]

theorem loadLine_chainHash {alg : HcsHashAlg} {hash : Bytes}
    (hlen : hash.length = hcsHashLen alg) :
    loadLine load (ascii "chain_hash=" ++ (hexText hash ++ [10])) =
      some { st :=
               { load.st with
                 chainHash := overlay load.st.chainHash hash
                 chainHash_length :=
                   (overlay_length _ _).trans load.st.chainHash_length }
             got := load.got ||| 1 } := by
  have hle := hcsHashLen_le alg
  have hpos := hcsHashLen_pos alg
  have hhex : (hexText hash).length = hcsHashLen alg * 2 := by
    rw [hexText_length, hlen, Nat.mul_comm]
  have hscan : scanS 128 (hexText hash ++ [10]) = some (hexText hash) := by
    apply scanS_word
    · intro hnil
      rw [hnil] at hhex
      simp only [List.length_nil] at hhex
      omega
    · exact fun c hc => (word_hexText hash c hc).1
    · rw [hhex]
      simp only [Common.Limits.hcsHashMaxLen] at hle
      omega
  have hdecode : hcsHexDecode (hexText hash) (hcsHashLen alg) = some hash :=
    hcsHexDecode_hexText (Nat.le_of_eq hlen)
  have hwritten : hexWritten (hcsHashLen alg) (hexText hash) = hash := by
    rw [← hlen]
    exact hexWritten_hexText hash
  rw [loadLine, scanField_of_not_prefix (not_prefix_of_key (by decide) _)]
  simp only [scanField_self, hscan, loadChainHash, hhex,
    hcsHashAlgFromHexLen_hcsHashLen, hdecode, hwritten, Option.isSome_some,
    if_true]

theorem loadLine_seq (n : UInt64) :
    loadLine load (ascii "seq=" ++ (decimal n.toNat ++ [10])) =
      some { st := { load.st with seq := n }, got := load.got ||| 2 } := by
  rw [loadLine, scanField_of_not_prefix (not_prefix_of_key (by decide) _),
    scanField_of_not_prefix (not_prefix_of_key (by decide) _)]
  simp only [scanField_self, scanLu_decimal]

theorem loadLine_sigSeqFrom (n : UInt64) :
    loadLine load (ascii "sig_seq_from=" ++ (decimal n.toNat ++ [10])) =
      some { st := { load.st with sigSeqFrom := n }
             got := load.got ||| 4 } := by
  rw [loadLine, scanField_of_not_prefix (not_prefix_of_key (by decide) _),
    scanField_of_not_prefix (not_prefix_of_key (by decide) _),
    scanField_of_not_prefix (not_prefix_of_key (by decide) _)]
  simp only [scanField_self, scanLu_decimal]

theorem loadLine_pubkeyFp {fp : Bytes}
    (hlen : fp.length = Common.Limits.hcsHashLen) :
    loadLine load (ascii "pubkey_fp=" ++ (hexText fp ++ [10])) =
      some { st := { load.st with pubkeyFp := overlay load.st.pubkeyFp fp }
             got := load.got ||| 8 } := by
  have hhex : (hexText fp).length = 2 * Common.Limits.hcsHashLen := by
    rw [hexText_length, hlen]
  have hscan : scanS 64 (hexText fp ++ [10]) = some (hexText fp) := by
    apply scanS_word
    · intro hnil
      rw [hnil] at hhex
      cases hhex
    · exact fun c hc => (word_hexText fp c hc).1
    · rw [hhex]
      decide
  have hdecode : hcsHexDecode (hexText fp) Common.Limits.hcsHashLen =
      some fp := hcsHexDecode_hexText (Nat.le_of_eq hlen)
  have hwritten : hexWritten Common.Limits.hcsHashLen (hexText fp) = fp := by
    rw [← hlen]
    exact hexWritten_hexText fp
  rw [loadLine, scanField_of_not_prefix (not_prefix_of_key (by decide) _),
    scanField_of_not_prefix (not_prefix_of_key (by decide) _),
    scanField_of_not_prefix (not_prefix_of_key (by decide) _),
    scanField_of_not_prefix (not_prefix_of_key (by decide) _)]
  simp only [scanField_self, hscan, hhex, if_true, loadPubkeyFp, hdecode,
    hwritten, Option.isSome_some]

theorem overlay_of_length_le {buffer written : Bytes}
    (h : written.length ≤ buffer.length) :
    overlay buffer written = written ++ buffer.drop written.length := by
  unfold overlay
  rw [List.take_of_length_le]
  simp only [List.length_append, List.length_drop]
  omega

def savedState (chain : HashchainCtx) (sigSeqFrom : UInt64) (fp : Bytes) :
    SavedState where
  hashAlg := chain.alg
  chainHash := overlay (List.replicate Common.Limits.hcsHashMaxLen 0)
    chain.current
  seq := chain.seq
  sigSeqFrom := sigSeqFrom
  pubkeyFp := fp
  chainHash_length := (overlay_length _ _).trans (by simp)

theorem loadState_stateText (chain : HashchainCtx) (sigSeqFrom : UInt64)
    {fp : Bytes} (hfp : fp.length = Common.Limits.hcsHashLen) :
    mmhashchainsigsLoadState false (some (stateText chain sigSeqFrom fp)) =
      some (savedState chain sigSeqFrom fp) := by
  have hmagic : Word stateMagic ∧ stateMagic.length + 1 < stateLineSize := by
    decide +kernel
  have hoverlay : overlay (List.replicate Common.Limits.hcsHashLen 0) fp =
      fp :=
    overlay_of_length (by simp [hfp])
  have hlines : fgetsLines stateLineSize (stateText chain sigSeqFrom fp) =
      (stateMagic ++ [10]) ::
        (stateLines chain sigSeqFrom fp).map (· ++ [10]) := by
    rw [stateText_eq, fgetsLines_word hmagic.1 hmagic.2,
      fgetsLines_words (stateLines_word hfp)]
  simp only [mmhashchainsigsLoadState, Option.bind_eq_bind, Option.bind_some,
    hlines, List.prefix_append, not_true_eq_false, if_false, stateLines,
    List.map_cons, List.map_nil, List.foldlM_cons, List.foldlM_nil,
    List.append_assoc, loadLine_hashalgo,
    loadLine_chainHash _ chain.current_length, loadLine_seq,
    loadLine_sigSeqFrom, loadLine_pubkeyFp _ hfp, hoverlay]
  rfl

theorem restoredChain_savedState (chain : HashchainCtx)
    (sigSeqFrom : UInt64) (fp : Bytes) :
    restoredChain (savedState chain sigSeqFrom fp) =
      hashchainResetCount chain := by
  have hle : chain.current.length ≤
      (List.replicate Common.Limits.hcsHashMaxLen (0 : UInt8)).length := by
    rw [chain.current_length, List.length_replicate]
    exact hcsHashLen_le _
  simp only [restoredChain, savedState, SavedState.hashLen,
    overlay_of_length_le hle, List.take_left' chain.current_length,
    hashchainResetCount]

end MmHashChainSigs.Module
