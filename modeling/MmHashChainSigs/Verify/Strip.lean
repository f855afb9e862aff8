import MmHashChainSigs.Common.Header
import MmHashChainSigs.Verify.Verifier

/-!
# What the two strip passes take out of a line

A line that strips without an error is its payload with a chain element and at
most one certificate element put in.  Both passes take the first element they
find, so a line is cut in one way only, and the payload is what is left of it.
-/

namespace MmHashChainSigs.Verify

open MmHashChainSigs.Foundation
open MmHashChainSigs.Common

variable {ossl : OpenSSL}

/-! ## The chain element -/

/-- An element of the chain's identifier, up to its closing bracket. -/
def ChainElement (element : Bytes) : Prop :=
  ∃ body, element = sdPrefix hcsSdId ++ (body ++ [bracketByte]) ∧
    Unquoted body

theorem hcsParseSd_last {element : Bytes} {record : HcsSdRecord}
    (h : hcsParseSd ossl element = some record) :
    element.getLast? = some bracketByte := by
  unfold hcsParseSd at h
  split_ifs at h with hbad
  by_contra hlast
  exact hbad (.inr (.inr hlast))

theorem hcsStripSdFromLine_ok {line msg : Bytes} {next : UInt8}
    {cap : Nat} {n : Int} {record : HcsSdRecord}
    (h : hcsStripSdFromLine ossl line next cap = .ok (n, msg, record)) :
    ∃ before element after, line = before ++ (element ++ after) ∧
      ¬ sdPrefix hcsSdId <:+: before ∧ ChainElement element ∧
      hcsParseSd ossl element = some record ∧ msg = before ++ after ∧
      msg.length < cap := by
  unfold hcsStripSdFromLine stripSdFromLine at h
  split at h
  · cases h
  next before rest hfind =>
    obtain ⟨rfl, text, rfl⟩ := findSub_some hfind
    have hbefore := findSub_some_before hfind (by decide)
    rw [List.drop_left] at h
    split at h
    next after hscan =>
      have hclosed : QuotesClosed text := by
        rw [quotesClosed_iff, hscan]
        exact nofun
      split at h
      · cases h
      next record' hparse =>
        split_ifs at h with hcap
        simp only [Except.ok.injEq, Prod.mk.injEq] at h
        obtain ⟨-, rfl, rfl⟩ := h
        rcases hclosed with hopen | ⟨body, after', hcloses⟩
        · -- The scan went to the end of the line, where there is no bracket.
          have hend := hopen.scanLine []
          rw [List.append_nil, hscan] at hend
          obtain rfl : after = [] := Option.some.inj hend
          have hlast := hcsParseSd_last hparse
          rw [List.length_nil, Nat.sub_zero, List.take_length] at hlast
          by_cases hnil : text = []
          · rw [hnil, List.append_nil] at hlast
            exact absurd hlast (by decide)
          · rw [List.getLast?_append_of_ne_nil _ hnil] at hlast
            exact absurd hlast hopen.getLast?_ne
        · have hsame := hcloses.scanLine
          rw [hscan] at hsame
          obtain rfl : after = after' := Option.some.inj hsame
          obtain ⟨rfl, hbody⟩ := hcloses
          have hline : sdPrefix hcsSdId ++ (body ++ bracketByte :: after) =
              sdPrefix hcsSdId ++ (body ++ [bracketByte]) ++ after := by
            simp
          rw [hline, List.length_append, Nat.add_sub_cancel, List.take_left]
            at hparse
          refine ⟨before, sdPrefix hcsSdId ++ (body ++ [bracketByte]), after,
            by rw [hline, List.append_assoc], hbefore, ⟨body, rfl, hbody⟩,
            hparse, rfl, ?_⟩
          rw [List.length_append]
          omega
    next hscan =>
      split at h
      · cases h
      · split_ifs at h

theorem sdParseBody_width {body : Bytes} {record : HcsSdRecord}
    (h : sdParseBody ossl body = some record) :
    record.chainHashLen = record.chainHash.length := by
  cases hfound : (sdExtractUint64 body "q" 0).1 with
  | false => simp [sdParseBody, hfound] at h
  | true =>
      simp only [sdParseBody, hfound, not_true_eq_false, if_false,
        Option.bind_eq_bind, Option.bind_eq_some_iff] at h
      obtain ⟨hash, -, h⟩ := h
      split at h
      · cases h
        rfl
      · split_ifs at h
        simp only [Option.bind_eq_some_iff, Option.some.injEq] at h
        obtain ⟨decoded, -, rfl⟩ := h
        rfl

theorem hcsParseSd_width {element : Bytes} {record : HcsSdRecord}
    (h : hcsParseSd ossl element = some record) :
    record.chainHashLen = record.chainHash.length := by
  unfold hcsParseSd at h
  split_ifs at h
  exact sdParseBody_width h

/-! ## The certificate element -/

theorem sdParamValue_some {text value rest : Bytes}
    (h : sdParamValue text = some (value, rest)) :
    text = value ++ quoteByte :: rest ∧ Quoted value := by
  induction text using sdParamValue.induct generalizing value with
  | case1 => simp [sdParamValue] at h
  | case2 text =>
      simp only [sdParamValue_quote, Option.some.injEq, Prod.mk.injEq] at h
      obtain ⟨rfl, rfl⟩ := h
      exact ⟨rfl, .nil⟩
  | case3 hne => simp [sdParamValue, hne] at h
  | case4 d text hne ih =>
      simp only [sdParamValue, hne, if_false, if_true] at h
      obtain ⟨⟨value', rest'⟩, hvalue, heq⟩ := Option.map_eq_some_iff.mp h
      simp only [Prod.mk.injEq] at heq
      obtain ⟨rfl, rfl⟩ := heq
      obtain ⟨rfl, hquoted⟩ := ih hvalue
      exact ⟨rfl, .escape hquoted⟩
  | case5 c text hquote hback ih =>
      rw [sdParamValue_cons hquote hback, Option.map_eq_some_iff] at h
      obtain ⟨⟨value', rest'⟩, hvalue, heq⟩ := h
      simp only [Prod.mk.injEq] at heq
      obtain ⟨rfl, rfl⟩ := heq
      obtain ⟨rfl, hquoted⟩ := ih hvalue
      exact ⟨rfl, .char hquote hback hquoted⟩

/-- A certificate element, whatever its value decodes to. -/
def CertElement (element : Bytes) : Prop :=
  ∃ value, element = sdCertText value ∧ Quoted value

def CertStripped (ossl : OpenSSL) (src : Bytes) (cap : Nat) :
    CertStrip → Prop
  | .failed => True
  | .absent msg => msg = src ∧ ¬ sdPrefix hcsSdCertId <:+: src
  | .stripped msg der derLen =>
      ∃ before value after, src = before ++ (sdCertText value ++ after) ∧
        ¬ sdPrefix hcsSdCertId <:+: before ∧ Quoted value ∧
        hcsB64Decode ossl value = some (der, derLen) ∧
        msg = before ++ after ∧ msg.length < cap

theorem hcsExtractAndStripCertSd_spec (src : Bytes) (cap : Nat) :
    CertStripped ossl src cap (hcsExtractAndStripCertSd ossl src cap) := by
  unfold hcsExtractAndStripCertSd
  split
  next hfind =>
    split_ifs
    · trivial
    · exact ⟨rfl, (findSub_eq_none_iff _ _).mp hfind⟩
  next before rest hfind =>
    obtain ⟨rfl, text, rfl⟩ := findSub_some hfind
    have hbefore := findSub_some_before hfind (by decide)
    simp only [List.drop_left]
    split_ifs with hkey
    · trivial
    · rw [not_or, not_not] at hkey
      obtain ⟨value, rfl⟩ := hkey.2
      rw [List.drop_left]
      split
      next value c after hvalue =>
        obtain ⟨rfl, hread⟩ := sdParamValue_some hvalue
        split_ifs with hbracket hcap
        · trivial
        · split <;> trivial
        · split
          · trivial
          next der derLen hdecode =>
            refine ⟨before, value, after, ?_, hbefore, hread, hdecode, rfl, ?_⟩
            · rw [not_not.mp hbracket]
              simp [sdCertText, ascii, quoteByte, bracketByte]
            · rw [List.length_append]
              omega
      · trivial

/-! ## Both passes -/

/--
A line cut at its first chain element and, if the rest has one, at the first
certificate element there.  Without one `cert` and `back` are empty.
-/
@[ext]
structure LineCut where
  before : Bytes
  chain : Bytes
  after : Bytes
  front : Bytes
  cert : Bytes
  back : Bytes
  first : ¬ sdPrefix hcsSdId <:+: before
  chainElement : ChainElement chain
  rest : before ++ after = front ++ (cert ++ back)
  firstCert : ¬ sdPrefix hcsSdCertId <:+: front
  certElement : CertElement cert ∨ cert = [] ∧ back = []

def LineCut.line (cut : LineCut) : Bytes :=
  cut.before ++ (cut.chain ++ cut.after)

def LineCut.outside (cut : LineCut) : Bytes := cut.front ++ cut.back

theorem LineCut.line_length (cut : LineCut) :
    cut.line.length =
      cut.outside.length + (cut.chain.length + cut.cert.length) := by
  have hrest := congrArg List.length cut.rest
  simp only [List.length_append] at hrest
  simp only [LineCut.line, LineCut.outside, List.length_append]
  omega

theorem stripLine_exists_cut {line : Bytes} {s : StrippedLine}
    (h : stripLine ossl line = some s) (hclean : s.malformed = false) :
    ∃ cut : LineCut, cut.line = line ∧ s.msg = cut.outside := by
  unfold stripLine at h
  split at h
  · cases h
  next n msg sd hchain =>
    obtain ⟨before, element, after, rfl, hbefore, helement, -, rfl, -⟩ :=
      hcsStripSdFromLine_ok hchain
    have hspec := @hcsExtractAndStripCertSd_spec ossl (before ++ after)
      Limits.sdMsgBufLen
    cases hcert : hcsExtractAndStripCertSd ossl (before ++ after)
      Limits.sdMsgBufLen with
    | failed =>
        simp only [hcert, Option.some.injEq] at h
        simp [← h] at hclean
    | absent msg =>
        simp only [hcert, Option.some.injEq] at h hspec
        obtain ⟨rfl, habsent⟩ := hspec
        rw [← h]
        exact ⟨⟨before, element, after, before ++ after, [], [], hbefore,
          helement, by simp, habsent, .inr ⟨rfl, rfl⟩⟩, rfl, by
            simp [LineCut.outside]⟩
    | stripped msg der derLen =>
        simp only [hcert, Option.some.injEq] at h hspec
        obtain ⟨first, value, second, hrest, hfirst, hvalue, -, rfl, -⟩ := hspec
        rw [← h]
        exact ⟨⟨before, element, after, first, sdCertText value, second,
          hbefore, helement, hrest, hfirst, .inl ⟨value, rfl, hvalue⟩⟩, rfl,
          rfl⟩

theorem stripLine_width {line : Bytes} {s : StrippedLine}
    (h : stripLine ossl line = some s) :
    s.sd.chainHashLen = s.sd.chainHash.length := by
  unfold stripLine at h
  split at h
  · cases h
  next n msg sd hchain =>
    obtain ⟨before, element, after, -, -, -, hparse, -, -⟩ :=
      hcsStripSdFromLine_ok hchain
    have hwidth := hcsParseSd_width hparse
    split at h <;> simp only [Option.some.injEq] at h <;> rw [← h] <;>
      exact hwidth

theorem stripLine_elementText {params : List (Bytes × Bytes)}
    (hparams : ∀ param ∈ params, PlainName param.1 ∧ Plain param.2)
    {record : HcsSdRecord}
    (hparse : sdParseBody ossl (sdParams params) = some record)
    {payload : Bytes} (hlen : payload.length < Limits.sdMsgBufLen)
    (hcert : ¬ sdPrefix hcsSdCertId <:+: payload) :
    stripLine ossl (elementText params ++ payload) =
      some ⟨record, payload, [], false⟩ := by
  have hchain := hcsStripSdFromLine_elementText ossl hparams hparse
    (show ¬ sdPrefix hcsSdId <:+: ([] : Bytes) by decide) 0
    (show ([] : Bytes).length + payload.length < Limits.sdMsgBufLen by simpa)
  have hfind := (findSub_eq_none_iff _ _).mpr hcert
  rw [List.nil_append, List.nil_append] at hchain
  simp only [stripLine, hchain, hcsExtractAndStripCertSd, hfind]
  rw [if_neg (by omega)]

theorem chainElement_unique {before element after before' element' after' : Bytes}
    (hbefore : ¬ sdPrefix hcsSdId <:+: before)
    (hbefore' : ¬ sdPrefix hcsSdId <:+: before')
    (helement : ChainElement element) (helement' : ChainElement element')
    (h : before ++ (element ++ after) = before' ++ (element' ++ after')) :
    before = before' ∧ after = after' := by
  obtain ⟨body, rfl, hbody⟩ := helement
  obtain ⟨body', rfl, hbody'⟩ := helement'
  simp only [List.append_assoc, List.singleton_append] at h
  have hfind := findSub_sdPrefix (by decide) hbefore
    (body ++ bracketByte :: after)
  rw [h, findSub_sdPrefix (by decide) hbefore'] at hfind
  simp only [Option.some.injEq, Prod.mk.injEq, List.append_cancel_left_eq]
    at hfind
  obtain ⟨rfl, hrest⟩ := hfind
  have hscan := @ClosesAt.scanLine _ body after ⟨rfl, hbody⟩
  rw [← hrest, ClosesAt.scanLine ⟨rfl, hbody'⟩] at hscan
  exact ⟨rfl, (Option.some.inj hscan).symm⟩

theorem certElement_unique {first cert second first' cert' second' : Bytes}
    (hfirst : ¬ sdPrefix hcsSdCertId <:+: first)
    (hfirst' : ¬ sdPrefix hcsSdCertId <:+: first')
    (hcert : CertElement cert) (hcert' : CertElement cert')
    (h : first ++ (cert ++ second) = first' ++ (cert' ++ second')) :
    first = first' ∧ second = second' := by
  obtain ⟨value, rfl, hvalue⟩ := hcert
  obtain ⟨value', rfl, hvalue'⟩ := hcert'
  simp only [sdCertText, List.append_assoc] at h
  have hfind := findSub_sdPrefix (by decide) hfirst
    (ascii "cert=\"" ++ (value ++ (ascii "\"]" ++ second)))
  rw [h, findSub_sdPrefix (by decide) hfirst'] at hfind
  simp only [Option.some.injEq, Prod.mk.injEq, List.append_cancel_left_eq]
    at hfind
  obtain ⟨rfl, hrest⟩ := hfind
  have hread := hvalue.paramValue (bracketByte :: second)
  have hread' := hvalue'.paramValue (bracketByte :: second')
  have htail : value' ++ quoteByte :: bracketByte :: second' =
      value ++ quoteByte :: bracketByte :: second := hrest
  rw [← htail, hread'] at hread
  simp only [Option.some.injEq, Prod.mk.injEq, List.cons.injEq, true_and]
    at hread
  exact ⟨rfl, hread.2.symm⟩

theorem infix_of_certElement {first cert second : Bytes}
    (hcert : CertElement cert) :
    sdPrefix hcsSdCertId <:+: first ++ (cert ++ second) := by
  obtain ⟨value, rfl, -⟩ := hcert
  refine ⟨first, ascii "cert=\"" ++ (value ++ (ascii "\"]" ++ second)), ?_⟩
  simp only [sdCertText, List.append_assoc]

theorem LineCut.not_infix_of_no_cert {cut : LineCut}
    (h : cut.cert = [] ∧ cut.back = []) :
    cut.before ++ cut.after = cut.front ∧
      ¬ sdPrefix hcsSdCertId <:+: cut.before ++ cut.after := by
  have hrest := cut.rest
  rw [h.1, h.2, List.append_nil, List.append_nil] at hrest
  rw [hrest]
  exact ⟨rfl, cut.firstCert⟩

theorem LineCut.line_injective : Function.Injective LineCut.line := by
  intro cut cut' hline
  obtain ⟨hbefore, hafter⟩ := chainElement_unique cut.first cut'.first
    cut.chainElement cut'.chainElement hline
  have hchain : cut.chain = cut'.chain := by
    unfold LineCut.line at hline
    rwa [hbefore, hafter, List.append_cancel_left_eq,
      List.append_cancel_right_eq] at hline
  have hsame : cut.before ++ cut.after = cut'.before ++ cut'.after := by
    rw [hbefore, hafter]
  have hrest := cut.rest.symm.trans (hsame.trans cut'.rest)
  rcases cut.certElement with hcert | hnone
  · rcases cut'.certElement with hcert' | hnone'
    · obtain ⟨hfront, hback⟩ := certElement_unique cut.firstCert
        cut'.firstCert hcert hcert' hrest
      have hsame : cut.cert = cut'.cert := by
        rwa [hfront, hback, List.append_cancel_left_eq,
          List.append_cancel_right_eq] at hrest
      exact LineCut.ext hbefore hchain hafter hfront hsame hback
    · have habsent := (not_infix_of_no_cert hnone').2
      rw [← hsame, cut.rest] at habsent
      exact absurd (infix_of_certElement hcert) habsent
  · rcases cut'.certElement with hcert' | hnone'
    · have habsent := (not_infix_of_no_cert hnone).2
      rw [hsame, cut'.rest] at habsent
      exact absurd (infix_of_certElement hcert') habsent
    · have hfront : cut.front = cut'.front := by
        rw [← (not_infix_of_no_cert hnone).1, hsame,
          (not_infix_of_no_cert hnone').1]
      exact LineCut.ext hbefore hchain hafter hfront
        (hnone.1.trans hnone'.1.symm) (hnone.2.trans hnone'.2.symm)

theorem stripLine_cut {line : Bytes} {s : StrippedLine}
    (h : stripLine ossl line = some s) (hclean : s.malformed = false) :
    ∃ cut : LineCut, (∀ other : LineCut, other.line = line ↔ other = cut) ∧
      s.msg = cut.outside := by
  obtain ⟨cut, rfl, hmsg⟩ := stripLine_exists_cut h hclean
  exact ⟨cut, fun other => LineCut.line_injective.eq_iff, hmsg⟩

/-- The payload sees what is outside of the two elements, and nothing else:
text that is put in or taken out there, and what stands there instead. -/
theorem payload_eq_iff_outside_eq (ossl : OpenSSL)
    (first second : Bytes) (s t : StrippedLine)
    (hs : stripLine ossl first = some s) (ht : stripLine ossl second = some t)
    (hsclean : s.malformed = false) (htclean : t.malformed = false) :
    ∃ cut cut' : LineCut,
      (∀ other : LineCut, other.line = first ↔ other = cut) ∧
      (∀ other : LineCut, other.line = second ↔ other = cut') ∧
      (s.msg = t.msg ↔ cut.outside = cut'.outside) ∧
      (cut.chain.length = cut'.chain.length →
        cut.cert.length = cut'.cert.length →
        first.length ≠ second.length → s.msg ≠ t.msg) ∧
      (cut.front.length = cut'.front.length →
        (s.msg = t.msg ↔ cut.front = cut'.front ∧ cut.back = cut'.back)) := by
  obtain ⟨cut, hcut, hmsg⟩ := stripLine_cut hs hsclean
  obtain ⟨cut', hcut', hmsg'⟩ := stripLine_cut ht htclean
  have hline : cut.line = first := (hcut cut).mpr rfl
  have hline' : cut'.line = second := (hcut' cut').mpr rfl
  rw [hmsg, hmsg']
  refine ⟨cut, cut', hcut, hcut', Iff.rfl, ?_, ?_⟩
  · rintro hchain hcert hne hsame
    apply hne
    rw [← hline, ← hline', cut.line_length, cut'.line_length, hsame, hchain,
      hcert]
  · intro hfront
    constructor
    · exact fun hsame => List.append_inj hsame hfront
    · rintro ⟨hfront, hback⟩
      rw [LineCut.outside, LineCut.outside, hfront, hback]

theorem payload_eq_iff_outside_eq_sample :
    ∃ cut cut' : LineCut,
      cut.line = elementText (msgParams 1 (List.replicate 32 0)) ++
        (sdCertText (ascii "AQID") ++ [97]) ∧
      cut'.line = elementText (msgParams 1 (List.replicate 32 0)) ++
        (sdCertText (ascii "AQID") ++ [98]) ∧
      cut.outside ≠ cut'.outside := by
  obtain ⟨cut, cut', hcut, hcut', houtside, -⟩ :=
    payload_eq_iff_outside_eq sampleOpenSSL
      (elementText (msgParams 1 (List.replicate 32 0)) ++
        (sdCertText (ascii "AQID") ++ [97]))
      (elementText (msgParams 1 (List.replicate 32 0)) ++
        (sdCertText (ascii "AQID") ++ [98]))
      ⟨msgRecord 1 (List.replicate 32 0), [97], [1, 2, 3], false⟩
      ⟨msgRecord 1 (List.replicate 32 0), [98], [1, 2, 3], false⟩
      (by decide +kernel) (by decide +kernel) rfl rfl
  refine ⟨cut, cut', (hcut cut).mpr rfl, (hcut' cut').mpr rfl, ?_⟩
  rw [Ne, ← houtside]
  decide

/-! ## Lines that differ in more than an INIT certificate -/

def SameFrame (line line' : Bytes) : Prop :=
  ∃ before element element' after, line = before ++ (element ++ after) ∧
    line' = before ++ (element' ++ after) ∧
    ¬ sdPrefix hcsSdId <:+: before ∧ ChainElement element ∧
    ChainElement element'

theorem SameFrame.eq {before element after before' element' after' : Bytes}
    (h : SameFrame (before ++ (element ++ after))
      (before' ++ (element' ++ after')))
    (hbefore : ¬ sdPrefix hcsSdId <:+: before)
    (hbefore' : ¬ sdPrefix hcsSdId <:+: before')
    (helement : ChainElement element) (helement' : ChainElement element') :
    before = before' ∧ after = after' := by
  obtain ⟨front, first, second, back, hline, hline', hfront, hfirst,
    hsecond⟩ := h
  obtain ⟨rfl, rfl⟩ := chainElement_unique hbefore hfront helement hfirst hline
  obtain ⟨rfl, rfl⟩ := chainElement_unique hbefore' hfront helement' hsecond
    hline'
  exact ⟨rfl, rfl⟩

theorem Plain.quoted {value : Bytes} (h : Plain value) : Quoted value := by
  induction value with
  | nil => exact .nil
  | cons c value ih =>
      obtain ⟨⟨hquote, hback, -, -⟩, hvalue⟩ := List.forall_mem_cons.mp h
      exact .char hquote hback (ih hvalue)

theorem chainElement_elementText {params : List (Bytes × Bytes)}
    (h : ∀ param ∈ params, Plain param.1 ∧ Plain param.2) :
    ChainElement (elementText params) :=
  ⟨sdParams params, rfl, unquoted_sdParams fun param hparam =>
    ⟨(h param hparam).1, Plain.quoted (h param hparam).2⟩⟩

def sampleElement : Bytes :=
  elementText (msgParams 1 (List.replicate 32 0))

/-- An element that is moved, text that joins it, and a certificate in front
of a message. -/
theorem frame_not_hashed :
    ∃ s, s.sd.type = .msg ∧ s.malformed = false ∧
      stripLine sampleOpenSSL (sampleElement ++ [97, 98]) = some s ∧
      stripLine sampleOpenSSL ([97] ++ (sampleElement ++ [98])) = some s ∧
      stripLine sampleOpenSSL
        (sdPrefix hcsSdId ++ (sampleElement ++ [97, 98])) = some s ∧
      stripLine sampleOpenSSL
        (sampleElement ++ (sdCertText [] ++ [97, 98])) = some s ∧
      ¬ SameFrame (sampleElement ++ [97, 98])
        ([97] ++ (sampleElement ++ [98])) ∧
      ¬ SameFrame (sampleElement ++ [97, 98])
        (sampleElement ++ (sdCertText [] ++ [97, 98])) := by
  have helement : ChainElement sampleElement :=
    chainElement_elementText fun param hparam =>
      ⟨(msgParams_plain _ _ param hparam).1.1,
        (msgParams_plain _ _ param hparam).2⟩
  have hnil : ¬ sdPrefix hcsSdId <:+: ([] : Bytes) := by decide
  refine ⟨⟨msgRecord 1 (List.replicate 32 0), [97, 98], [], false⟩, rfl, rfl,
    by decide +kernel, by decide +kernel, by decide +kernel,
    by decide +kernel, ?_, ?_⟩
  · intro h
    have heq := @SameFrame.eq [] _ _ [97] _ _ h hnil (by decide)
      helement helement
    exact absurd heq.1 (by decide)
  · intro h
    have heq := @SameFrame.eq [] _ _ [] _ _ h hnil hnil helement helement
    exact absurd heq.2 (by decide)

end MmHashChainSigs.Verify
