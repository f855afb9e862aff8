import MmHashChainSigs.Verify.ExitCode
import MmHashChainSigs.Verify.LogFile
import MmHashChainSigs.Verify.UnsignedTail

/-!
# Rotated logs

A log is cut where a chain begins, and put together again.  The whole passes
exactly when its parts do, as long as they share the hash algorithm.
-/

namespace MmHashChainSigs.Verify

open MmHashChainSigs.Foundation
open MmHashChainSigs.Common

variable {ossl : OpenSSL}

/-! ## Logs of one algorithm -/

section Logs

variable {key : ossl.Pkey} {fp : Bytes} {strict : Bool} {alg : HcsHashAlg}
  {items more : List Item}

structure LogOf (key : ossl.Pkey) (fp : Bytes) (strict : Bool)
    (alg : HcsHashAlg) (items : List Item) : Prop where
  nonempty : items ≠ []
  segments : ∃ segments, Splits IsInit items segments ∧
    (∀ segment ∈ segments, Throughout (ItemOk ossl key fp alg) segment) ∧
    (strict = true → ∀ segment ∈ segments, EndsSigned segment)

theorem chainLog_iff_logOf :
    ChainLog ossl key fp strict items ↔
      ∃ alg, LogOf key fp strict alg items := by
  constructor
  · rintro ⟨hne, alg, segments⟩
    exact ⟨alg, hne, segments⟩
  · rintro ⟨alg, hne, segments⟩
    exact ⟨hne, alg, segments⟩

theorem LogOf.alg_unique {alg' : HcsHashAlg}
    (h : LogOf key fp strict alg items)
    (h' : LogOf key fp strict alg' items) : alg = alg' := by
  obtain ⟨segments, hsplits, hall, -⟩ := h.segments
  obtain ⟨segments', hsplits', hall', -⟩ := h'.segments
  obtain rfl := hsplits.unique hsplits'
  cases segments with
  | nil => exact absurd hsplits.1 h.nonempty
  | cons segment segments =>
      have hmem : segment ∈ segment :: segments := List.mem_cons_self
      exact Verify.alg_unique (hsplits.2 segment hmem).ne_nil
        (hall segment hmem) (hall' segment hmem)

theorem logOf_append (hne : items ≠ []) (hne' : more ≠ [])
    (hhead : ∀ item ∈ more.head?, IsInit item) :
    LogOf key fp strict alg (items ++ more) ↔
      LogOf key fp strict alg items ∧ LogOf key fp strict alg more := by
  constructor
  · intro h
    obtain ⟨segments, hsplits, hall, hsigned⟩ := h.segments
    obtain ⟨before, after, rfl, hbefore, hafter⟩ :=
      Splits.of_append hhead hsplits
    have hleft : ∀ segment ∈ before, segment ∈ before ++ after :=
      fun _ => List.mem_append_left after
    have hright : ∀ segment ∈ after, segment ∈ before ++ after :=
      fun _ => List.mem_append_right before
    constructor
    · exact ⟨hne, before, hbefore, fun s hs => hall s (hleft s hs),
        fun hstrict s hs => hsigned hstrict s (hleft s hs)⟩
    · exact ⟨hne', after, hafter, fun s hs => hall s (hright s hs),
        fun hstrict s hs => hsigned hstrict s (hright s hs)⟩
  · rintro ⟨h, h'⟩
    obtain ⟨before, hbefore, hall, hsigned⟩ := h.segments
    obtain ⟨after, hafter, hall', hsigned'⟩ := h'.segments
    refine ⟨List.append_ne_nil_of_left_ne_nil hne more, before ++ after,
      hbefore.append hafter, ?_, ?_⟩
    · intro segment hsegment
      rcases List.mem_append.mp hsegment with hs | hs
      · exact hall segment hs
      · exact hall' segment hs
    · intro hstrict segment hsegment
      rcases List.mem_append.mp hsegment with hs | hs
      · exact hsigned hstrict segment hs
      · exact hsigned' hstrict segment hs

end Logs

/-! ## Runs -/

section Runs

variable {key : ossl.Pkey} {fp : Bytes} {strict : Bool}
  {calls more : List VerifyCall}

def Passes (key : ossl.Pkey) (fp : Bytes) (strict : Bool)
    (calls : List VerifyCall) : Prop :=
  verifierPassed (verifierFinalize (feed (keyedCtx strict key fp) calls)) =
    true

def lockedAlg (key : ossl.Pkey) (fp : Bytes) (strict : Bool)
    (calls : List VerifyCall) : HcsHashAlg :=
  (feed (keyedCtx strict key fp) calls).hashAlg

theorem passes_iff_logOf (hruns : ∀ call ∈ calls, HashRuns call)
    (hlen : calls.length < 2 ^ 64) (alg : HcsHashAlg) :
    Passes key fp strict calls ∧ lockedAlg key fp strict calls = alg ↔
      ∃ items, Strips ossl calls items ∧ LogOf key fp strict alg items := by
  unfold Passes
  rw [passed_iff_chainLog hruns hlen]
  have hlocked : ∀ items, Strips ossl calls items →
      ∀ alg, LogOf key fp strict alg items →
        lockedAlg key fp strict calls = alg := by
    intro items hstrips alg hlog
    have hchain := chainLog_iff_logOf.mpr ⟨alg, hlog⟩
    have herrors :=
      feed_errors_of_logSoFar calls hruns hlen hstrips hchain.logSoFar
    obtain ⟨items', hstrips', htracks⟩ := feed_tracks calls hruns hlen herrors
    obtain rfl := strips_unique hstrips hstrips'
    rcases htracks.log with ⟨hnil, -⟩ | ⟨alg', segments, segment, hsplits,
      hlogged, hopen⟩
    · exact absurd hnil hlog.nonempty
    · obtain ⟨segments', hsplits', hall, -⟩ := hlog.segments
      obtain rfl := hsplits.unique hsplits'
      have hmem : segment ∈ segments ++ [segment] := by simp
      have hne := (hsplits.2 segment hmem).ne_nil
      rw [lockedAlg, hopen.alg_eq]
      exact alg_unique hne (hlogged.1 segment hmem) (hall segment hmem)
  constructor
  · rintro ⟨⟨items, hstrips, hchain⟩, halg⟩
    obtain ⟨alg', hlog⟩ := chainLog_iff_logOf.mp hchain
    rw [hlocked items hstrips alg' hlog] at halg
    exact ⟨items, hstrips, halg ▸ hlog⟩
  · rintro ⟨items, hstrips, hlog⟩
    exact ⟨⟨items, hstrips, chainLog_iff_logOf.mpr ⟨alg, hlog⟩⟩,
      hlocked items hstrips alg hlog⟩

theorem strips_append {items : List Item} :
    Strips ossl (calls ++ more) items ↔
      ∃ before after, items = before ++ after ∧ Strips ossl calls before ∧
        Strips ossl more after := by
  unfold Strips
  rw [List.map_append]
  constructor
  · intro h
    obtain ⟨before, after, rfl, hbefore, hafter⟩ :=
      List.map_eq_append_iff.mp h.symm
    exact ⟨before, after, rfl, hbefore.symm, hafter.symm⟩
  · rintro ⟨before, after, rfl, hbefore, hafter⟩
    rw [List.map_append, hbefore, hafter]

def BeginsSegment (ossl : OpenSSL) (calls : List VerifyCall) : Prop :=
  ∃ call rest, calls = call :: rest ∧ opens ossl call.line = true

theorem head_isInit {items : List Item} (hstrips : Strips ossl calls items)
    (h : BeginsSegment ossl calls) :
    items ≠ [] ∧ ∀ item ∈ items.head?, IsInit item := by
  obtain ⟨call, rest, rfl, hopens⟩ := h
  cases items with
  | nil => cases hstrips
  | cons item items =>
      refine ⟨List.cons_ne_nil _ _, fun first hfirst => ?_⟩
      cases hfirst
      have hitem : itemOf ossl call = some item :=
        (List.cons.inj hstrips).1
      obtain ⟨s, hstrip, -, rfl⟩ := itemOf_eq_some.mp hitem
      unfold opens at hopens
      rw [hstrip] at hopens
      exact of_decide_eq_true hopens

theorem passes_append (hruns : ∀ call ∈ calls ++ more, HashRuns call)
    (hlen : (calls ++ more).length < 2 ^ 64) (hne : calls ≠ [])
    (hbegins : BeginsSegment ossl more) :
    Passes key fp strict (calls ++ more) ↔
      Passes key fp strict calls ∧ Passes key fp strict more ∧
        lockedAlg key fp strict calls = lockedAlg key fp strict more := by
  have hruns' : ∀ call ∈ calls, HashRuns call :=
    fun c hc => hruns c (List.mem_append_left _ hc)
  have hruns'' : ∀ call ∈ more, HashRuns call :=
    fun c hc => hruns c (List.mem_append_right _ hc)
  have hlen' := hlen
  rw [List.length_append] at hlen'
  have hboth : ∀ alg,
      Passes key fp strict (calls ++ more) ∧
          lockedAlg key fp strict (calls ++ more) = alg ↔
        (Passes key fp strict calls ∧ lockedAlg key fp strict calls = alg) ∧
          Passes key fp strict more ∧ lockedAlg key fp strict more = alg := by
    intro alg
    rw [passes_iff_logOf hruns hlen, passes_iff_logOf hruns' (by omega),
      passes_iff_logOf hruns'' (by omega)]
    constructor
    · rintro ⟨items, hstrips, hlog⟩
      obtain ⟨before, after, rfl, hbefore, hafter⟩ := strips_append.mp hstrips
      obtain ⟨hafterNe, hhead⟩ := head_isInit hafter hbegins
      have hbeforeNe : before ≠ [] := by
        intro hnil
        have hlength := hbefore.length_eq
        rw [hnil, List.length_nil] at hlength
        exact hne (List.length_eq_zero_iff.mp hlength.symm)
      obtain ⟨hleft, hright⟩ := (logOf_append hbeforeNe hafterNe hhead).mp hlog
      exact ⟨⟨before, hbefore, hleft⟩, after, hafter, hright⟩
    · rintro ⟨⟨before, hbefore, hleft⟩, after, hafter, hright⟩
      obtain ⟨hafterNe, hhead⟩ := head_isInit hafter hbegins
      exact ⟨before ++ after, strips_append.mpr ⟨before, after, rfl, hbefore,
        hafter⟩, (logOf_append hleft.nonempty hafterNe hhead).mpr
          ⟨hleft, hright⟩⟩
  constructor
  · intro h
    obtain ⟨⟨hleft, halg⟩, hright, halg'⟩ := (hboth _).mp ⟨h, rfl⟩
    exact ⟨hleft, hright, halg.trans halg'.symm⟩
  · rintro ⟨hleft, hright, halg⟩
    exact ((hboth _).mpr ⟨⟨hleft, halg⟩, hright, rfl⟩).1

def runCounts (key : ossl.Pkey) (fp : Bytes) (strict : Bool)
    (calls : List VerifyCall) : UInt64 × UInt64 :=
  let ctx := feed (keyedCtx strict key fp) calls
  (ctx.msgCount, ctx.sigCount)

theorem Passes.counts (h : Passes key fp strict calls)
    (hruns : ∀ call ∈ calls, HashRuns call) (hlen : calls.length < 2 ^ 64) :
    ∃ items, Strips ossl calls items ∧ runCounts key fp strict calls =
      (UInt64.ofNat items.length, UInt64.ofNat (items.countP (IsSig ·))) := by
  have herrors := (verifierFinalize_errors.mp (verifierPassed_iff.mp h)).1
  obtain ⟨items, hstrips, htracks⟩ := feed_tracks calls hruns hlen herrors
  refine ⟨items, hstrips, ?_⟩
  rw [runCounts, htracks.msgCount, htracks.sigCount]

theorem runCounts_append (hruns : ∀ call ∈ calls ++ more, HashRuns call)
    (hlen : (calls ++ more).length < 2 ^ 64)
    (h : Passes key fp strict (calls ++ more))
    (hleft : Passes key fp strict calls)
    (hright : Passes key fp strict more) :
    runCounts key fp strict (calls ++ more) =
      runCounts key fp strict calls + runCounts key fp strict more := by
  have hlen' := hlen
  rw [List.length_append] at hlen'
  obtain ⟨items, hstrips, hcounts⟩ := h.counts hruns hlen
  obtain ⟨before, hbefore, hcounts'⟩ := hleft.counts
    (fun c hc => hruns c (List.mem_append_left _ hc)) (by omega)
  obtain ⟨after, hafter, hcounts''⟩ := hright.counts
    (fun c hc => hruns c (List.mem_append_right _ hc)) (by omega)
  have hitems : items = before ++ after := strips_unique hstrips
    (strips_append.mpr ⟨before, after, rfl, hbefore, hafter⟩)
  rw [hcounts, hcounts', hcounts'', hitems, List.length_append,
    List.countP_append, UInt64.ofNat_add, UInt64.ofNat_add]
  rfl

theorem passes_congr (h : calls.map (itemOf ossl) = more.map (itemOf ossl))
    (hruns : ∀ call ∈ calls, HashRuns call)
    (hruns' : ∀ call ∈ more, HashRuns call)
    (hlen : calls.length < 2 ^ 64) (alg : HcsHashAlg) :
    Passes key fp strict calls ∧ lockedAlg key fp strict calls = alg ↔
      Passes key fp strict more ∧ lockedAlg key fp strict more = alg := by
  have hlength : calls.length = more.length := by
    simpa using congrArg List.length h
  rw [passes_iff_logOf hruns hlen, passes_iff_logOf hruns' (hlength ▸ hlen)]
  unfold Strips
  rw [h]

theorem runCounts_congr (h : calls.map (itemOf ossl) = more.map (itemOf ossl))
    (hpasses : Passes key fp strict calls)
    (hpasses' : Passes key fp strict more)
    (hruns : ∀ call ∈ calls, HashRuns call)
    (hruns' : ∀ call ∈ more, HashRuns call)
    (hlen : calls.length < 2 ^ 64) :
    runCounts key fp strict calls = runCounts key fp strict more := by
  have hlength : calls.length = more.length := by
    simpa using congrArg List.length h
  obtain ⟨items, hstrips, hcounts⟩ := hpasses.counts hruns hlen
  obtain ⟨items', hstrips', hcounts'⟩ :=
    hpasses'.counts hruns' (hlength ▸ hlen)
  have hitems : items = items' :=
    strips_unique hstrips (Eq.trans h hstrips')
  rw [hcounts, hcounts', hitems]

end Runs

/-! ## Files -/

def callsAfter (n : Nat) (faults : Nat → VerifyFaults) (file : Bytes) :
    List VerifyCall :=
  (getlines file).mapIdx fun i line =>
    { line := stripLineEnd line, lineNum := UInt64.ofNat (i + n + 1)
      faults := faults (i + n) }

theorem fileCalls_append {first : Bytes} (hends : EndsLine first)
    (faults : Nat → VerifyFaults) (second : Bytes) :
    fileCalls faults (first ++ second) = fileCalls faults first ++
      callsAfter (getlines first).length faults second := by
  rw [fileCalls, getlines_append hends, List.mapIdx_append]
  rfl

theorem callsAfter_map {α : Type} {f : VerifyCall → α}
    (hf : ∀ call : VerifyCall, ∀ lineNum,
      f { call with lineNum := lineNum } = f call)
    (n : Nat) (faults : Nat → VerifyFaults) (file : Bytes) :
    (callsAfter n faults file).map f =
      (fileCalls (fun i => faults (i + n)) file).map f := by
  unfold callsAfter fileCalls
  rw [List.mapIdx_eq_zipIdx_map, List.mapIdx_eq_zipIdx_map, List.map_map,
    List.map_map]
  apply List.map_congr_left
  intro entry _
  exact (hf _ _).symm

theorem beginsSegment_callsAfter {file : Bytes}
    (h : ∃ line lines, logLines file = line :: lines ∧
      opens ossl line = true) (n : Nat) (faults : Nat → VerifyFaults) :
    BeginsSegment ossl (callsAfter n faults file) := by
  obtain ⟨line, lines, hlines, hopens⟩ := h
  have hmap := @callsAfter_map _ VerifyCall.line (fun _ _ => rfl) n faults file
  rw [fileCalls_lines, hlines] at hmap
  cases hcalls : callsAfter n faults file with
  | nil =>
      rw [hcalls] at hmap
      cases hmap
  | cons call calls =>
      rw [hcalls] at hmap
      exact ⟨call, calls, rfl, (List.cons.inj hmap).1 ▸ hopens⟩

theorem verifierMain_passes {fingerprintFails : Bool} {opts : VerifierOpts}
    {ctx : VerifierCtx ossl}
    (hinit : verifierInit ossl fingerprintFails opts = some ctx)
    (hmode : opts.caBundlePath = none) (hcrl : opts.crlFile = none) :
    ∃ key fp, ctx = keyedCtx opts.strict key fp ∧ ∀ faults file,
      verifierMain ossl fingerprintFails opts faults (some file) = 0 ↔
        Passes key fp opts.strict (fileCalls faults file) := by
  rcases verifierInit_cases hinit with ⟨-, key, fp, rfl, -⟩ | ⟨hbundle, -⟩
  · refine ⟨key, fp, rfl, fun faults file => ?_⟩
    rw [verifierMain_eq hinit (.inl hcrl), exitCode_eq_zero_iff]
    rfl
  · exact absurd hmode hbundle

/-- A file that is cut in front of a chain passes exactly when both parts do
and have one algorithm; its counts are the sums of theirs. -/
theorem rotated_logs {fingerprintFails : Bool} {opts : VerifierOpts}
    {ctx : VerifierCtx ossl}
    (hinit : verifierInit ossl fingerprintFails opts = some ctx)
    (hmode : opts.caBundlePath = none) (hcrl : opts.crlFile = none)
    {faults : Nat → VerifyFaults}
    (hruns : ∀ i, (faults i).hashChain = false ∧ (faults i).chainInit = false)
    {first second : Bytes} (hends : EndsLine first) (hne : first ≠ [])
    (hbegins : ∃ line lines, logLines second = line :: lines ∧
      opens ossl line = true)
    (hlen : (getlines (first ++ second)).length < 2 ^ 64) :
    let main := fun faults file =>
      verifierMain ossl fingerprintFails opts faults (some file)
    let run := fun faults file => feed ctx (fileCalls faults file)
    let later := fun i => faults (i + (getlines first).length)
    (main faults (first ++ second) = 0 ↔
      main faults first = 0 ∧ main later second = 0 ∧
        (run faults first).hashAlg = (run later second).hashAlg) ∧
    (main faults (first ++ second) = 0 →
      (run faults (first ++ second)).msgCount =
        (run faults first).msgCount + (run later second).msgCount ∧
      (run faults (first ++ second)).sigCount =
        (run faults first).sigCount + (run later second).sigCount) := by
  intro main run later
  obtain ⟨key, fp, rfl, hmain⟩ := verifierMain_passes hinit hmode hcrl
  have hwhole := fileCalls_append hends faults second
  have hsame := @callsAfter_map _ (itemOf ossl) (fun _ _ => rfl)
    (getlines first).length faults second
  have hbegins' := beginsSegment_callsAfter hbegins (getlines first).length
    faults
  have hfront : fileCalls faults first ≠ [] := by
    intro hnil
    have hlength := fileCalls_length faults first
    rw [hnil, List.length_nil] at hlength
    exact hne (getlines_eq_nil.mp (List.length_eq_zero_iff.mp hlength.symm))
  have hrunsWhole : ∀ call ∈ fileCalls faults (first ++ second),
      HashRuns call := by
    intro call hcall
    obtain ⟨i, hi⟩ := fileCalls_faults hcall
    rw [HashRuns, hi]
    exact hruns i
  have hrunsLater : ∀ call ∈ fileCalls later second, HashRuns call := by
    intro call hcall
    obtain ⟨i, hi⟩ := fileCalls_faults hcall
    rw [HashRuns, hi]
    exact hruns _
  have hlenWhole := fileCalls_length faults (first ++ second)
  rw [hwhole] at hrunsWhole hlenWhole
  rw [← hlenWhole] at hlen
  have hlen' := hlen
  rw [List.length_append] at hlen'
  have hrunsBack : ∀ call ∈ callsAfter (getlines first).length faults second,
      HashRuns call := fun c hc => hrunsWhole c (List.mem_append_right _ hc)
  have hback : ∀ alg, _ ↔ _ :=
    @passes_congr _ key fp opts.strict _ _ hsame hrunsBack hrunsLater (by omega)
  have hbackPasses : Passes key fp opts.strict
      (callsAfter (getlines first).length faults second) ↔
        Passes key fp opts.strict (fileCalls later second) := by
    constructor
    · exact fun h => ((hback _).mp ⟨h, rfl⟩).1
    · exact fun h => ((hback _).mpr ⟨h, rfl⟩).1
  have hpasses := @passes_append _ key fp opts.strict _ _ hrunsWhole hlen
    hfront hbegins'
  have halg : Passes key fp opts.strict (fileCalls later second) →
      lockedAlg key fp opts.strict
          (callsAfter (getlines first).length faults second) =
        lockedAlg key fp opts.strict (fileCalls later second) :=
    fun h => ((hback _).mpr ⟨h, rfl⟩).2
  constructor
  · change verifierMain _ _ _ _ _ = 0 ↔
      verifierMain _ _ _ _ _ = 0 ∧ verifierMain _ _ _ _ _ = 0 ∧ _
    rw [hmain, hmain, hmain, hwhole, hpasses, hbackPasses]
    constructor
    · rintro ⟨hleft, hright, hlocked⟩
      exact ⟨hleft, hright, hlocked.trans (halg hright)⟩
    · rintro ⟨hleft, hright, hlocked⟩
      exact ⟨hleft, hright, Eq.trans hlocked (halg hright).symm⟩
  · intro h
    change verifierMain _ _ _ _ _ = 0 at h
    rw [hmain, hwhole] at h
    obtain ⟨hleft, hright, -⟩ := hpasses.mp h
    have hsum := runCounts_append hrunsWhole hlen h hleft hright
    rw [runCounts_congr hsame hright (hbackPasses.mp hright) hrunsBack
      hrunsLater (by omega)] at hsum
    have hrun : run faults (first ++ second) = feed (keyedCtx opts.strict key fp)
        (fileCalls faults first ++
          callsAfter (getlines first).length faults second) := by
      rw [← hwhole]
    rw [hrun]
    exact ⟨congrArg Prod.fst hsum, congrArg Prod.snd hsum⟩

theorem endsLine_newline (text : Bytes) : EndsLine (text ++ [10]) := by
  intro c hc
  simpa [eq_comm] using hc

theorem rotated_logs_sample :
    verifierMain sampleOpenSSL false { pubkeyPath := some [7], strict := true }
        (fun _ => {}) (some (signedFile ++ signedFile)) = 0 ∧
      (feed (sampleCtx true)
        (fileCalls (fun _ => {}) (signedFile ++ signedFile))).msgCount = 4 ∧
      (feed (sampleCtx true)
        (fileCalls (fun _ => {}) (signedFile ++ signedFile))).sigCount = 2 := by
  have hrotated := @rotated_logs sampleOpenSSL false
    { pubkeyPath := some [7], strict := true } (sampleCtx true) rfl rfl rfl
    (fun _ => {}) (fun _ => ⟨rfl, rfl⟩) signedFile signedFile
    (endsLine_newline _) (by decide +kernel)
    ⟨(unsignedCall 0).line, [signingCall.line], by decide +kernel,
      by decide +kernel⟩
    (by decide +kernel)
  have hpass : verifierMain sampleOpenSSL false
      { pubkeyPath := some [7], strict := true } (fun _ => {})
      (some signedFile) = 0 := by decide +kernel
  have hcounts : (feed (sampleCtx true)
        (fileCalls (fun _ => {}) signedFile)).msgCount = 2 ∧
      (feed (sampleCtx true)
        (fileCalls (fun _ => {}) signedFile)).sigCount = 1 := by
    decide +kernel
  have hwhole := hrotated.1.mpr ⟨hpass, hpass, rfl⟩
  obtain ⟨hmsg, hsig⟩ := hrotated.2 hwhole
  refine ⟨hwhole, hmsg.trans ?_, hsig.trans ?_⟩
  · rw [hcounts.1]
    rfl
  · rw [hcounts.2]
    rfl

end MmHashChainSigs.Verify
