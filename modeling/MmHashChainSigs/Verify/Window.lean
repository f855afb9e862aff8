import MmHashChainSigs.Verify.Rotation
import MmHashChainSigs.Verify.Strictness

/-!
# A part of a log

Lines are cut off at both ends of a log that passes.  What is left passes when
it begins with a chain and, in the strict mode, ends with a signature.
-/

namespace MmHashChainSigs.Verify

open MmHashChainSigs.Foundation
open MmHashChainSigs.Common

variable {ossl : OpenSSL}

/-! ## Items -/

section Items

variable {key : ossl.Pkey} {fp : Bytes} {strict : Bool} {alg : HcsHashAlg}
  {items before window after : List Item}

theorem LogOf.head_isInit (h : LogOf key fp strict alg items) :
    ∀ item ∈ items.head?, IsInit item := by
  obtain ⟨segments, hsplits, -⟩ := h.segments
  exact hsplits.head_isHead

theorem LogOf.endsSigned (h : LogOf key fp strict alg items) :
    strict = true → EndsSigned items := by
  rintro rfl
  exact ChainLog.endsSigned (chainLog_iff_logOf.mpr ⟨alg, h⟩)

theorem LogOf.initial (h : LogOf key fp strict alg (window ++ after))
    (hne : window ≠ []) (hends : strict = true → EndsSigned window) :
    LogOf key fp strict alg window := by
  obtain ⟨segments, hsplits, hall, hsigned⟩ := h.segments
  obtain ⟨old, last, rest, later, rfl, hold⟩ := hsplits.initial hne
  have hlast : last ++ rest ∈ old ++ (last ++ rest) :: later := by simp
  have hmem : ∀ segment ∈ old, segment ∈ old ++ (last ++ rest) :: later :=
    fun segment => List.mem_append_left _
  refine ⟨hne, old ++ [last], hold, ?_, ?_⟩
  · intro segment hsegment
    rcases List.mem_append.mp hsegment with hs | hs
    · exact hall segment (hmem segment hs)
    · rw [List.mem_singleton.mp hs]
      exact (hall _ hlast).initial
  · intro hstrict segment hsegment
    rcases List.mem_append.mp hsegment with hs | hs
    · exact hsigned hstrict segment (hmem segment hs)
    · rw [List.mem_singleton.mp hs]
      obtain ⟨front, item, hwindow, hsig⟩ := hends hstrict
      have hlastNe := (hold.2 last (by simp)).ne_nil
      obtain ⟨init, x, rfl⟩ :=
        (List.eq_nil_or_concat' last).resolve_left hlastNe
      have hflat := hold.1
      rw [List.flatten_append, List.flatten_singleton, ← List.append_assoc,
        hwindow] at hflat
      obtain ⟨-, hx⟩ := List.append_inj' hflat rfl
      rw [← hx]
      exact ⟨init, item, rfl, hsig⟩

theorem LogOf.cut (h : LogOf key fp strict alg (before ++ (window ++ after)))
    (hne : window ≠ []) :
    LogOf key fp strict alg window ↔
      (∀ item ∈ window.head?, IsInit item) ∧
        (strict = true → EndsSigned window) := by
  constructor
  · exact fun h => ⟨h.head_isInit, h.endsSigned⟩
  · rintro ⟨hhead, hends⟩
    have hhead' : ∀ item ∈ (window ++ after).head?, IsInit item := by
      obtain ⟨first, rest, rfl⟩ := List.exists_cons_of_ne_nil hne
      exact hhead
    have hne' := List.append_ne_nil_of_left_ne_nil hne after
    have hrest : LogOf key fp strict alg (window ++ after) := by
      by_cases hnil : before = []
      · rw [hnil, List.nil_append] at h
        exact h
      · exact ((logOf_append hnil hne' hhead').mp h).2
    exact hrest.initial hne hends

end Items

/-! ## Runs -/

def signs (ossl : OpenSSL) (line : Bytes) : Bool :=
  (stripLine ossl line).any fun s => s.sd.type = .sig

section Runs

variable {key : ossl.Pkey} {fp : Bytes} {strict : Bool}
  {calls before window after : List VerifyCall} {items : List Item}

theorem opens_iff_isInit {call : VerifyCall} {item : Item}
    (h : itemOf ossl call = some item) :
    opens ossl call.line = true ↔ IsInit item := by
  obtain ⟨s, hstrip, -, rfl⟩ := itemOf_eq_some.mp h
  unfold opens
  rw [hstrip]
  exact decide_eq_true_iff

theorem signs_iff_isSig {call : VerifyCall} {item : Item}
    (h : itemOf ossl call = some item) :
    signs ossl call.line = true ↔ IsSig item := by
  obtain ⟨s, hstrip, -, rfl⟩ := itemOf_eq_some.mp h
  unfold signs
  rw [hstrip]
  exact decide_eq_true_iff

def OpensFirst (ossl : OpenSSL) (lines : List Bytes) : Prop :=
  ∀ line ∈ lines.head?, opens ossl line = true

def SignsLast (ossl : OpenSSL) (lines : List Bytes) : Prop :=
  ∀ line ∈ lines.getLast?, signs ossl line = true

instance (lines : List Bytes) : Decidable (OpensFirst ossl lines) :=
  inferInstanceAs (Decidable (∀ line ∈ lines.head?, _))

instance (lines : List Bytes) : Decidable (SignsLast ossl lines) :=
  inferInstanceAs (Decidable (∀ line ∈ lines.getLast?, _))

theorem begins_iff (h : Strips ossl calls items) :
    OpensFirst ossl (calls.map VerifyCall.line) ↔
      ∀ item ∈ items.head?, IsInit item := by
  cases calls with
  | nil =>
      cases items with
      | nil => exact iff_of_true (fun _ h => by cases h) fun _ h => by cases h
      | cons item items => cases h
  | cons call calls =>
      cases items with
      | nil => cases h
      | cons item items =>
          have hitem : itemOf ossl call = some item := (List.cons.inj h).1
          simp [OpensFirst, opens_iff_isInit hitem]

theorem signs_iff (h : Strips ossl calls items) (hne : items ≠ []) :
    SignsLast ossl (calls.map VerifyCall.line) ↔ EndsSigned items := by
  obtain ⟨front, item, rfl⟩ := (List.eq_nil_or_concat' items).resolve_left hne
  rcases List.eq_nil_or_concat' calls with rfl | ⟨front', call, rfl⟩
  · exact absurd h.length_eq (by simp)
  · unfold Strips at h
    rw [List.map_append, List.map_append] at h
    have hitem : itemOf ossl call = some item := by
      simpa using (List.append_inj' h rfl).2
    simp only [SignsLast, List.map_append, List.map_cons, List.map_nil,
      List.getLast?_concat, Option.mem_def, Option.some.injEq, forall_eq',
      signs_iff_isSig hitem]
    constructor
    · exact fun hsig => ⟨front, item, rfl, hsig⟩
    · rintro ⟨front', item', heq, hsig⟩
      obtain ⟨-, hlast⟩ := List.append_inj' heq rfl
      obtain rfl : item = item' := by simpa using hlast
      exact hsig

theorem passes_window (hruns : ∀ call ∈ before ++ (window ++ after),
      HashRuns call)
    (hlen : (before ++ (window ++ after)).length < 2 ^ 64)
    (hne : window ≠ [])
    (h : Passes key fp strict (before ++ (window ++ after))) :
    Passes key fp strict window ↔
      OpensFirst ossl (window.map VerifyCall.line) ∧
        (strict = true → SignsLast ossl (window.map VerifyCall.line)) := by
  have hrunsWindow : ∀ call ∈ window, HashRuns call := fun c hc =>
    hruns c (List.mem_append_right _ (List.mem_append_left _ hc))
  have hlenWindow : window.length < 2 ^ 64 := by
    simp only [List.length_append] at hlen
    omega
  obtain ⟨items, hstrips, hlog⟩ := (passes_iff_logOf hruns hlen _).mp ⟨h, rfl⟩
  obtain ⟨front, rest, rfl, -, hrest⟩ := strips_append.mp hstrips
  obtain ⟨middle, back, rfl, hmiddle, -⟩ := strips_append.mp hrest
  have hmiddleNe : middle ≠ [] := by
    rintro rfl
    exact hne (List.length_eq_zero_iff.mp hmiddle.length_eq.symm)
  rw [begins_iff hmiddle, signs_iff hmiddle hmiddleNe, ← hlog.cut hmiddleNe]
  constructor
  · intro hpasses
    obtain ⟨items', hstrips', hlog'⟩ :=
      (passes_iff_logOf hrunsWindow hlenWindow _).mp ⟨hpasses, rfl⟩
    obtain rfl := strips_unique hmiddle hstrips'
    rw [hlog.cut hmiddleNe]
    exact ⟨hlog'.head_isInit, hlog'.endsSigned⟩
  · intro hwindow
    exact ((passes_iff_logOf hrunsWindow hlenWindow _).mpr
      ⟨middle, hmiddle, hwindow⟩).1

end Runs

/-! ## Files -/

theorem callsAfter_append {first : Bytes} (hends : EndsLine first) (n : Nat)
    (faults : Nat → VerifyFaults) (second : Bytes) :
    callsAfter n faults (first ++ second) = callsAfter n faults first ++
      callsAfter ((getlines first).length + n) faults second := by
  unfold callsAfter
  rw [getlines_append hends, List.mapIdx_append]
  congr 1
  simp only [Nat.add_assoc]

/-- A part of a log that passes: when it passes, it begins with a chain, and
in the strict mode it ends with a signature; nothing else is needed. -/
theorem log_window {fingerprintFails : Bool} {opts : VerifierOpts}
    {ctx : VerifierCtx ossl}
    (hinit : verifierInit ossl fingerprintFails opts = some ctx)
    (hmode : opts.caBundlePath = none) (hcrl : opts.crlFile = none)
    {faults : Nat → VerifyFaults}
    (hruns : ∀ i, (faults i).hashChain = false ∧ (faults i).chainInit = false)
    {before window after : Bytes} (hends : EndsLine before)
    (hends' : EndsLine window) (hne : window ≠ [])
    (hlen : (getlines (before ++ (window ++ after))).length < 2 ^ 64)
    (hpass : verifierMain ossl fingerprintFails opts faults
      (some (before ++ (window ++ after))) = 0) :
    let later := fun i => faults (i + (getlines before).length)
    verifierMain ossl fingerprintFails opts later (some window) = 0 ↔
      OpensFirst ossl (logLines window) ∧
        (opts.strict = true → SignsLast ossl (logLines window)) := by
  intro later
  obtain ⟨key, fp, rfl, hmain⟩ := verifierMain_passes hinit hmode hcrl
  rw [hmain] at hpass ⊢
  have hlines := fileCalls_length faults (before ++ (window ++ after))
  have hcalls : ∀ call ∈ fileCalls faults (before ++ (window ++ after)),
      HashRuns call := by
    intro call hcall
    obtain ⟨i, hi⟩ := fileCalls_faults hcall
    rw [HashRuns, hi]
    exact hruns i
  have hlater : ∀ call ∈ fileCalls later window, HashRuns call := by
    intro call hcall
    obtain ⟨i, hi⟩ := fileCalls_faults hcall
    rw [HashRuns, hi]
    exact hruns _
  rw [← hlines] at hlen
  rw [fileCalls_append hends, callsAfter_append hends'] at hpass hcalls hlen
  have hsame := @callsAfter_map _ (itemOf ossl) (fun _ _ => rfl)
    (getlines before).length faults window
  have hwindow : callsAfter (getlines before).length faults window ≠ [] := by
    intro hnil
    apply hne
    rw [← getlines_eq_nil, ← List.length_eq_zero_iff]
    have hlength := congrArg List.length hnil
    rwa [callsAfter, List.length_mapIdx] at hlength
  have hrunsWindow := fun call hcall => hcalls call
    (List.mem_append_right _ (List.mem_append_left _ hcall))
  have hlenWindow : (callsAfter (getlines before).length faults
      window).length < 2 ^ 64 := by
    simp only [List.length_append] at hlen
    omega
  have hpasses := passes_window hcalls hlen hwindow hpass
  have hnumbers := @callsAfter_map _ VerifyCall.line (fun _ _ => rfl)
    (getlines before).length faults window
  rw [fileCalls_lines] at hnumbers
  rw [← hnumbers, ← hpasses]
  have hback := @passes_congr _ key fp opts.strict _ _ hsame hrunsWindow hlater
    hlenWindow
  constructor
  · exact fun h => ((hback _).mpr ⟨h, rfl⟩).1
  · exact fun h => ((hback _).mp ⟨h, rfl⟩).1

/-- A log of three signed segments: the middle one, and it without its INIT. -/
theorem log_window_sample :
    verifierMain sampleOpenSSL false { pubkeyPath := some [7], strict := true }
        (fun _ => {}) (some signedFile) = 0 ∧
      verifierMain sampleOpenSSL false
        { pubkeyPath := some [7], strict := true } (fun _ => {})
        (some (signingCall.line ++ [10])) ≠ 0 := by
  have hwindow := @log_window sampleOpenSSL false
    { pubkeyPath := some [7], strict := true } (sampleCtx true) rfl rfl rfl
    (fun _ => {}) (fun _ => ⟨rfl, rfl⟩)
  constructor
  · have hends : OpensFirst sampleOpenSSL (logLines signedFile) ∧
        SignsLast sampleOpenSSL (logLines signedFile) := by
      unfold OpensFirst SignsLast
      decide +kernel
    have hmiddle := @hwindow signedFile signedFile signedFile
      (endsLine_newline _) (endsLine_newline _) (by decide +kernel)
      (by decide +kernel) (by decide +kernel)
    exact hmiddle.mpr ⟨hends.1, fun _ => hends.2⟩
  · have hends : ¬ OpensFirst sampleOpenSSL
        (logLines (signingCall.line ++ [10])) := by
      unfold OpensFirst
      decide +kernel
    have hend := @hwindow ((unsignedCall 0).line ++ [10])
      (signingCall.line ++ [10]) (signedFile ++ signedFile)
      (endsLine_newline _) (endsLine_newline _) (by decide +kernel)
      (by decide +kernel) (by decide +kernel)
    exact fun hpass => hends (hend.mp hpass).1

end MmHashChainSigs.Verify
