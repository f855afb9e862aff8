import MmHashChainSigs.Common.RoundTrip
import MmHashChainSigs.Common.StripAll
import MmHashChainSigs.Foundation.Escape

/-!
# The header element

`hcs_format_sd_hdr` writes six parameters in a fixed order, their values
escaped.  The text is cut where an escape buffer ends, and otherwise no value
reaches into the next parameter or into what follows the element.
-/

namespace MmHashChainSigs.Common

open MmHashChainSigs.Foundation

/-! ## Escaped values -/

def sdEscape (text : Bytes) : Bytes :=
  Escape.escape mustEscape backslashByte text

theorem sdEscape_cons (c : UInt8) (text : Bytes) :
    sdEscape (c :: text) =
      (if mustEscape c then [backslashByte, c] else [c]) ++ sdEscape text :=
  Escape.escape_cons _ _ _ _

theorem sdEscape_escaped (text : Bytes) : Escaped (sdEscape text) := by
  induction text with
  | nil => exact .nil
  | cons c text ih =>
      rw [sdEscape_cons]
      by_cases hc : mustEscape c
      · rw [if_pos hc]
        exact .escape hc ih
      · rw [if_neg hc]
        exact .char (Bool.eq_false_iff.mpr hc) ih

theorem sdEscape_plain {text : Bytes} (h : Plain text) :
    sdEscape text = text := by
  apply Escape.escape_of_plain
  intro c hc
  obtain ⟨hquote, hback, hbracket, -⟩ := h c hc
  simp [mustEscape, hquote, hback, hbracket]

theorem sdEscapeParam_eq_some {cap j : Nat} {text out : Bytes} :
    sdEscapeParam cap j text = some out ↔
      j + (sdEscape text).length < cap ∧ out = sdEscape text := by
  induction text generalizing j out with
  | nil =>
      unfold sdEscapeParam
      simp [sdEscape, eq_comm]
  | cons c text ih =>
      rw [sdEscapeParam, sdEscape_cons]
      by_cases hc : mustEscape c
      · simp only [if_pos hc, List.length_cons, List.cons_append,
          List.nil_append]
        by_cases hcap : cap ≤ j + 2
        · rw [if_pos hcap]
          simp only [reduceCtorEq, false_iff, not_and]
          omega
        · rw [if_neg hcap, Option.map_eq_some_iff]
          constructor
          · rintro ⟨rest, hrest, rfl⟩
            obtain ⟨hlen, rfl⟩ := ih.mp hrest
            exact ⟨by omega, rfl⟩
          · rintro ⟨hlen, rfl⟩
            exact ⟨_, ih.mpr ⟨by omega, rfl⟩, rfl⟩
      · simp only [if_neg hc, List.length_cons, List.cons_append,
          List.nil_append]
        by_cases hcap : cap ≤ j + 1
        · rw [if_pos hcap]
          simp only [reduceCtorEq, false_iff, not_and]
          omega
        · rw [if_neg hcap, Option.map_eq_some_iff]
          constructor
          · rintro ⟨rest, hrest, rfl⟩
            obtain ⟨hlen, rfl⟩ := ih.mp hrest
            exact ⟨by omega, rfl⟩
          · rintro ⟨hlen, rfl⟩
            exact ⟨_, ih.mpr ⟨by omega, rfl⟩, rfl⟩

/-! ## Parameters with escaped values -/

def escapedParams (params : List (Bytes × Bytes)) : Bytes :=
  sdParams (params.map fun param => (param.1, sdEscape param.2))

theorem sdParam_append (name value rest : Bytes) :
    sdParam name value ++ rest =
      name ++ (ascii "=\"" ++ (value ++ quoteByte :: rest)) := by
  simp [sdParam]

theorem sdParam_escape_inj {name value value' rest rest' : Bytes}
    (h : sdParam name (sdEscape value) ++ rest =
      sdParam name (sdEscape value') ++ rest') :
    value = value' ∧ rest = rest' := by
  rw [sdParam_append, sdParam_append] at h
  have hvalue := List.append_cancel_left (List.append_cancel_left h)
  exact Escape.escape_close_inj (by decide) (by decide) (by decide) hvalue

theorem escapedParams_inj {params params' : List (Bytes × Bytes)}
    (hnames : params.map Prod.fst = params'.map Prod.fst)
    {rest rest' : Bytes}
    (h : escapedParams params ++ bracketByte :: rest =
      escapedParams params' ++ bracketByte :: rest') :
    params = params' ∧ rest = rest' := by
  induction params generalizing params' with
  | nil =>
      cases params' with
      | nil =>
          cases h
          exact ⟨rfl, rfl⟩
      | cons param' params' => cases hnames
  | cons param params ih =>
      obtain ⟨name, value⟩ := param
      cases params' with
      | nil => cases hnames
      | cons param' params' =>
          obtain ⟨name', value'⟩ := param'
          obtain ⟨rfl, htail⟩ := List.cons.inj hnames
          cases params with
          | nil =>
              cases params' with
              | nil =>
                  obtain ⟨rfl, hrest⟩ := sdParam_escape_inj h
                  cases hrest
                  exact ⟨rfl, rfl⟩
              | cons second' params' => cases htail
          | cons second params =>
              cases params' with
              | nil => cases htail
              | cons second' params' =>
                  simp only [escapedParams, List.map_cons, sdParams,
                    List.append_assoc] at h
                  obtain ⟨rfl, hrest⟩ := sdParam_escape_inj h
                  obtain ⟨hsame, rfl⟩ := ih htail (List.cons.inj hrest).2
                  rw [hsame]
                  exact ⟨rfl, rfl⟩

theorem unquoted_sdParam {name value : Bytes} (hname : Plain name)
    (hvalue : Quoted value) : Unquoted (sdParam name value) := by
  rw [← List.append_nil (sdParam name value), sdParam_append]
  apply Unquoted.append
  · apply unquoted_of_ne
    intro c hc
    obtain ⟨hquote, -, hbracket, -⟩ := hname c hc
    exact ⟨hquote, hbracket⟩
  · apply Unquoted.char (by decide) (by decide)
    exact .quoted hvalue .nil

theorem unquoted_sdParams {params : List (Bytes × Bytes)}
    (h : ∀ param ∈ params, Plain param.1 ∧ Quoted param.2) :
    Unquoted (sdParams params) := by
  induction params with
  | nil => exact .nil
  | cons param params ih =>
      rw [List.forall_mem_cons] at h
      have hparam := unquoted_sdParam h.1.1 h.1.2
      cases params with
      | nil => exact hparam
      | cons second params =>
          apply hparam.append
          apply Unquoted.char (by decide) (by decide)
          exact ih h.2

theorem unquoted_escapedParams {params : List (Bytes × Bytes)}
    (hnames : ∀ param ∈ params, Plain param.1) :
    Unquoted (escapedParams params) := by
  apply unquoted_sdParams
  intro param hparam
  obtain ⟨source, hsource, rfl⟩ := List.mem_map.mp hparam
  exact ⟨hnames source hsource, (sdEscape_escaped source.2).quoted⟩

/-! ## The six fields -/

def SyslogHeader.filled (hdr : SyslogHeader) : SyslogHeader where
  pri := hdr.pri
  ts := some (hdr.ts.getD [])
  host := some (hdr.host.getD [])
  app := some (hdr.app.getD [])
  procid := some (hdr.procid.getD [])
  msgid := some (hdr.msgid.getD [])

def hdrParams (hdr : SyslogHeader) : List (Bytes × Bytes) :=
  [(ascii "pri", decimal hdr.pri.toNat), (ascii "ts", hdr.ts.getD []),
    (ascii "host", hdr.host.getD []), (ascii "app", hdr.app.getD []),
    (ascii "procid", hdr.procid.getD []), (ascii "msgid", hdr.msgid.getD [])]

def hdrText (hdr : SyslogHeader) : Bytes :=
  sdPrefix hcsSdHdrId ++ (escapedParams (hdrParams hdr) ++ [bracketByte])

structure EscapesFit (hdr : SyslogHeader) : Prop where
  ts : (sdEscape (hdr.ts.getD [])).length < 80
  host : (sdEscape (hdr.host.getD [])).length < 520
  app : (sdEscape (hdr.app.getD [])).length < 136
  procid : (sdEscape (hdr.procid.getD [])).length < 136
  msgid : (sdEscape (hdr.msgid.getD [])).length < 136

theorem hdrText_eq (hdr : SyslogHeader) :
    hdrText hdr = sdPrefix hcsSdHdrId ++ ascii "pri=\"" ++
      decimal hdr.pri.toNat ++ ascii "\" ts=\"" ++
      sdEscape (hdr.ts.getD []) ++ ascii "\" host=\"" ++
      sdEscape (hdr.host.getD []) ++ ascii "\" app=\"" ++
      sdEscape (hdr.app.getD []) ++ ascii "\" procid=\"" ++
      sdEscape (hdr.procid.getD []) ++ ascii "\" msgid=\"" ++
      sdEscape (hdr.msgid.getD []) ++ ascii "\"]" := by
  simp [hdrText, hdrParams, escapedParams, sdParams, sdParam, ascii,
    sdEscape_plain (plain_decimal _), quoteByte, bracketByte]

theorem hcsFormatSdHdr_eq_some {hdr : SyslogHeader} {cap : Nat}
    {out : Bytes} :
    hcsFormatSdHdr hdr cap = some out ↔
      EscapesFit hdr ∧ (hdrText hdr).length < cap ∧ out = hdrText hdr := by
  simp only [hcsFormatSdHdr, Option.bind_eq_bind, Option.bind_eq_some_iff,
    sdEscapeParam_eq_some, fits_eq_some, Nat.zero_add]
  constructor
  · rintro ⟨_, ⟨hts, rfl⟩, _, ⟨hhost, rfl⟩, _, ⟨happ, rfl⟩, _, ⟨hprocid, rfl⟩,
      _, ⟨hmsgid, rfl⟩, hout⟩
    rw [← hdrText_eq] at hout
    exact ⟨⟨hts, hhost, happ, hprocid, hmsgid⟩, hout⟩
  · rintro ⟨hfit, hout⟩
    rw [hdrText_eq] at hout
    exact ⟨_, ⟨hfit.ts, rfl⟩, _, ⟨hfit.host, rfl⟩, _, ⟨hfit.app, rfl⟩, _,
      ⟨hfit.procid, rfl⟩, _, ⟨hfit.msgid, rfl⟩, hout⟩

theorem filled_eq_of_params {hdr hdr' : SyslogHeader}
    (h : hdrParams hdr = hdrParams hdr') : hdr.filled = hdr'.filled := by
  simp only [hdrParams, List.cons.injEq, Prod.mk.injEq, true_and,
    and_true] at h
  obtain ⟨hpri, hts, hhost, happ, hprocid, hmsgid⟩ := h
  have hnat := congrArg decimalValue hpri
  rw [decimalValue_decimal, decimalValue_decimal] at hnat
  unfold SyslogHeader.filled
  rw [UInt32.toNat_inj.mp hnat, hts, hhost, happ, hprocid, hmsgid]

theorem hdrText_inj {hdr hdr' : SyslogHeader} {rest rest' : Bytes}
    (h : hdrText hdr ++ rest = hdrText hdr' ++ rest') :
    hdr.filled = hdr'.filled ∧ rest = rest' := by
  simp only [hdrText, List.append_assoc, List.singleton_append] at h
  have hparams := List.append_cancel_left h
  obtain ⟨hsame, hrest⟩ := escapedParams_inj (by rfl) hparams
  exact ⟨filled_eq_of_params hsame, hrest⟩

theorem hdrText_closesAt (hdr : SyslogHeader) (rest : Bytes) :
    ClosesAt ((hdrText hdr ++ rest).drop (sdPrefix hcsSdHdrId).length)
      (escapedParams (hdrParams hdr)) rest := by
  constructor
  · unfold hdrText
    rw [List.append_assoc, List.drop_left, List.append_assoc]
    rfl
  · apply unquoted_escapedParams
    have hnames : ∀ name ∈ (hdrParams hdr).map Prod.fst, Plain name := by
      simp only [hdrParams, List.map_cons, List.map_nil]
      decide +kernel
    intro param hparam
    exact hnames _ (List.mem_map_of_mem hparam)

/-! ## What starts in a header element -/

def elementStarts (sdId text : Bytes) : Nat := occurrences (sdPrefix sdId) text

theorem sdPrefix_eq (sdId : Bytes) : sdPrefix sdId = 91 :: (sdId ++ [32]) := by
  simp [sdPrefix, ascii]

structure PlainId (sdId : Bytes) : Prop where
  plain : Plain sdId
  opening : 91 ∉ sdId

instance (sdId : Bytes) : Decidable (PlainId sdId) :=
  decidable_of_iff (Plain sdId ∧ 91 ∉ sdId)
    ⟨fun h => ⟨h.1, h.2⟩, fun h => ⟨h.plain, h.opening⟩⟩

theorem elementStarts_of_no_opening {text : Bytes} (h : 91 ∉ text)
    (sdId : Bytes) : elementStarts sdId text = 0 := by
  rw [elementStarts, sdPrefix_eq]
  exact occurrences_of_head h

theorem elementStarts_eq_zero_iff (sdId text : Bytes) :
    elementStarts sdId text = 0 ↔ ¬ sdPrefix sdId <:+: text := by
  apply occurrences_eq_zero_iff
  rw [sdPrefix_eq]
  exact List.cons_ne_nil _ _

section Starts

variable {sdId : Bytes} (hid : PlainId sdId)

include hid

theorem elementStarts_gap {gap : UInt8}
    (hgap : gap = quoteByte ∨ gap = bracketByte) (front back : Bytes) :
    elementStarts sdId (front ++ gap :: back) =
      elementStarts sdId front + elementStarts sdId back := by
  apply occurrences_gap
  · rw [sdPrefix_eq]
    exact List.cons_ne_nil _ _
  · rw [sdPrefix_eq, List.mem_cons, List.mem_append, List.mem_singleton]
    rintro (hfirst | hinside | hlast)
    · rcases hgap with rfl | rfl <;> exact absurd hfirst (by decide)
    · have hplain := hid.plain gap hinside
      rcases hgap with rfl | rfl
      · exact hplain.1 rfl
      · exact hplain.2.2.1 rfl
    · rcases hgap with rfl | rfl <;> exact absurd hlast (by decide)

theorem elementStarts_sdPrefix {id : Bytes} (hid' : PlainId id)
    (inside : Bytes) :
    elementStarts sdId (sdPrefix id ++ inside) =
      (if sdId = id then 1 else 0) + elementStarts sdId inside := by
  have hblank : ∀ {id : Bytes}, PlainId id → 32 ∉ id := fun h hmem =>
    (h.plain 32 hmem).2.2.2 rfl
  have hstarts : 91 :: (sdId ++ [32]) <+: 91 :: (id ++ [32] ++ inside) ↔
      sdId = id := by
    rw [List.cons_prefix_cons, and_iff_right rfl]
    constructor
    · rintro ⟨more, h⟩
      simp only [List.append_assoc, List.singleton_append] at h
      rcases List.append_eq_append_iff.mp h with
        ⟨tail, hlonger, htail⟩ | ⟨tail, hlonger, htail⟩
      · cases tail with
        | nil => rw [hlonger, List.append_nil]
        | cons c tail =>
            rw [← (List.cons.inj htail).1] at hlonger
            exact absurd (by simp [hlonger]) (hblank hid')
      · cases tail with
        | nil => rw [hlonger, List.append_nil]
        | cons c tail =>
            rw [← (List.cons.inj htail).1] at hlonger
            exact absurd (by simp [hlonger]) (hblank hid)
    · rintro rfl
      exact List.prefix_append _ _
  have hopening : 91 ∉ id ++ [32] := by
    rw [List.mem_append, not_or]
    exact ⟨hid'.opening, by decide⟩
  rw [elementStarts, sdPrefix_eq, sdPrefix_eq, List.cons_append, occurrences,
    occurrences_append_of_head hopening, elementStarts, sdPrefix_eq]
  simp only [hstarts]

theorem elementStarts_escapedParams {params : List (Bytes × Bytes)}
    (hnames : ∀ param ∈ params, 91 ∉ param.1) :
    elementStarts sdId (escapedParams params) = 0 ↔
      ∀ param ∈ params, ¬ sdPrefix sdId <:+: param.2 := by
  have hvalue : ∀ value, elementStarts sdId (sdEscape value) = 0 ↔
      ¬ sdPrefix sdId <:+: value := by
    intro value
    rw [elementStarts_eq_zero_iff, sdEscape, Escape.infix_escape_iff]
    · decide
    · rw [sdPrefix_eq]
      exact List.cons_ne_nil _ _
    · rw [sdPrefix_eq]
      intro c hc
      rw [List.mem_cons, List.mem_append, List.mem_singleton] at hc
      rcases hc with rfl | hc | rfl
      · decide
      · obtain ⟨hquote, hback, hbracket, -⟩ := hid.plain c hc
        simp [mustEscape, hquote, hback, hbracket]
      · decide
  have hparam : ∀ name value rest : Bytes, 91 ∉ name →
      elementStarts sdId (sdParam name value ++ rest) =
        elementStarts sdId value + elementStarts sdId rest := by
    intro name value rest hname
    have hfront : 91 ∉ name ++ [61] := by
      rw [List.mem_append, not_or]
      exact ⟨hname, by decide⟩
    have htext : sdParam name value ++ rest =
        (name ++ [61]) ++ quoteByte :: (value ++ quoteByte :: rest) := by
      rw [sdParam_append]
      simp [ascii, quoteByte]
    rw [htext, elementStarts_gap hid (.inl rfl),
      elementStarts_gap hid (.inl rfl), elementStarts_of_no_opening hfront,
      Nat.zero_add]
  induction params with
  | nil => simp [escapedParams, sdParams, elementStarts, occurrences]
  | cons param params ih =>
      rw [List.forall_mem_cons] at hnames
      rw [List.forall_mem_cons]
      refine Iff.trans ?_ (and_congr (hvalue param.2) (ih hnames.2))
      rw [← Nat.add_eq_zero_iff]
      cases params with
      | nil =>
          rw [← List.append_nil (escapedParams [param])]
          exact iff_of_eq (congrArg (· = 0) (hparam _ _ [] hnames.1))
      | cons second params =>
          have hblank := @occurrences_append_of_head _ _ 91 (sdId ++ [32]) [32]
            (by decide) (escapedParams (second :: params))
          rw [← sdPrefix_eq] at hblank
          have hcons := hparam param.1 (sdEscape param.2)
            ([32] ++ escapedParams (second :: params)) hnames.1
          rw [elementStarts, elementStarts, elementStarts, hblank] at hcons
          exact iff_of_eq (congrArg (· = 0) hcons)

theorem hdrText_starts (hdr : SyslogHeader) (rest : Bytes) :
    elementStarts sdId (hdrText hdr ++ rest) =
      (if sdId = hcsSdHdrId then 1 else 0) +
        (elementStarts sdId (escapedParams (hdrParams hdr)) +
          elementStarts sdId rest) := by
  have htext : hdrText hdr ++ rest = sdPrefix hcsSdHdrId ++
      (escapedParams (hdrParams hdr) ++ bracketByte :: rest) := by
    simp [hdrText]
  rw [htext, elementStarts_sdPrefix hid (by decide +kernel),
    elementStarts_gap hid (.inr rfl)]

end Starts

theorem hdrText_spells_iff {sdId : Bytes} (hid : PlainId sdId)
    (hdr : SyslogHeader) :
    elementStarts sdId (escapedParams (hdrParams hdr)) = 0 ↔
      ∀ param ∈ hdrParams hdr, ¬ sdPrefix sdId <:+: param.2 := by
  apply elementStarts_escapedParams hid
  have hnames : ∀ name ∈ (hdrParams hdr).map Prod.fst, 91 ∉ name := by
    simp only [hdrParams, List.map_cons, List.map_nil]
    decide +kernel
  intro param hparam
  exact hnames _ (List.mem_map_of_mem hparam)

end MmHashChainSigs.Common
