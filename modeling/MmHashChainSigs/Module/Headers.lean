import MmHashChainSigs.Common.Header
import MmHashChainSigs.Module.Collision

/-!
# The header of a message

`doAction` captures the six header fields in an element that is hashed with
the message.  The element can be told from what follows it; it cannot be
written for every header that the protocol allows.
-/

namespace MmHashChainSigs.Module

open MmHashChainSigs.Foundation
open MmHashChainSigs.Common

variable {ossl : OpenSSL}

/-! ## Telling headers apart -/

/--
No other header and no other continuation give the same text, and the scan
that starts behind the prefix of the element stops where the element does.
-/
structure SelfDelimiting (hdr : SyslogHeader) (element : Bytes) : Prop where
  unique : ∀ hdr' cap' element' rest rest',
    hcsFormatSdHdr hdr' cap' = some element' →
    element ++ rest = element' ++ rest' →
    hdr.filled = hdr'.filled ∧ rest = rest'
  begins : sdPrefix hcsSdHdrId <+: element
  scan : ∀ rest, sdScanElement false
    ((element ++ rest).drop (sdPrefix hcsSdHdrId).length) = rest
  position : ∀ rest, sdScanElementPos false (sdPrefix hcsSdHdrId).length
    ((element ++ rest).drop (sdPrefix hcsSdHdrId).length) = element.length

theorem hdrText_scan (hdr : SyslogHeader) (rest : Bytes) :
    sdScanElement false
      ((hdrText hdr ++ rest).drop (sdPrefix hcsSdHdrId).length) = rest :=
  (hdrText_closesAt hdr rest).scanElement

theorem hdrText_position (hdr : SyslogHeader) (rest : Bytes) :
    sdScanElementPos false (sdPrefix hcsSdHdrId).length
      ((hdrText hdr ++ rest).drop (sdPrefix hcsSdHdrId).length) =
        (hdrText hdr).length := by
  have hends := (sdScanElementPos_ends false (sdPrefix hcsSdHdrId).length
    ((hdrText hdr ++ rest).drop (sdPrefix hcsSdHdrId).length)).2
  have hlong : (sdPrefix hcsSdHdrId).length ≤ (hdrText hdr).length := by
    unfold hdrText
    rw [List.length_append]
    omega
  rw [hdrText_scan, List.length_drop, List.length_append] at hends
  omega

theorem selfDelimiting_of_format {hdr : SyslogHeader} {cap : Nat}
    {element : Bytes} (h : hcsFormatSdHdr hdr cap = some element) :
    SelfDelimiting hdr element := by
  obtain ⟨-, -, rfl⟩ := hcsFormatSdHdr_eq_some.mp h
  constructor
  · intro hdr' cap' element' rest rest' h' hsame
    obtain ⟨-, -, rfl⟩ := hcsFormatSdHdr_eq_some.mp h'
    exact hdrText_inj hsame
  · exact List.prefix_append _ _
  · exact hdrText_scan hdr
  · exact hdrText_position hdr

theorem doAction_payload {faults : ActionFaults} {wrkr : Worker ossl}
    {stateFile : Option Bytes} {msg : SyslogMsg} {emission : Emission}
    (h : (doAction faults wrkr stateFile msg).emission = some emission) :
    ∃ hdr text,
      hcsFormatSdHdr (syslogHeader msg) Common.Limits.hcsSdHdrMaxLen =
        some hdr ∧
      strippedSd faults (clientSd msg) = .ok text ∧
      emission.payload = hdr ++ (text ++ msg.msg) := by
  have hnewSd : (doAction faults wrkr stateFile msg).newSd ≠ none := by
    intro hnone
    revert h
    revert hnone
    unfold doAction
    cases cleanedSd faults msg with
    | error ret => exact fun _ => nofun
    | ok cleaned =>
        simp only
        split_ifs
        · exact fun _ => nofun
        · split <;> exact fun _ => nofun
        · split
          · exact fun _ => nofun
          · exact nofun
  obtain ⟨newSd, hnewSd⟩ := Option.ne_none_iff_exists'.mp hnewSd
  obtain ⟨sd, hdr, text, hemission, -, -, hhdr, htext⟩ := doAction_newSd hnewSd
  rw [h] at hemission
  cases hemission
  exact ⟨hdr, text, hhdr, htext, List.append_assoc _ _ _⟩

def PayloadTells (ossl : OpenSSL) (hdr : SyslogHeader) (rest : Bytes)
    (payload : Bytes) : Prop :=
  ∀ faults (wrkr : Worker ossl) stateFile msg emission,
    (doAction faults wrkr stateFile msg).emission = some emission →
    emission.payload = payload →
    (syslogHeader msg).filled = hdr.filled ∧
      ∃ text, strippedSd faults (clientSd msg) = .ok text ∧
        text ++ msg.msg = rest

/-- Header values imitate neither other header values nor another split. -/
theorem header_unambiguous (ossl : OpenSSL) (hdr : SyslogHeader) (cap : Nat)
    (element : Bytes) (h : hcsFormatSdHdr hdr cap = some element) :
    SelfDelimiting hdr element ∧
      ∀ rest, PayloadTells ossl hdr rest (element ++ rest) := by
  have hself := selfDelimiting_of_format h
  refine ⟨hself, ?_⟩
  intro rest faults wrkr stateFile msg emission hemission hpayload
  obtain ⟨hdr', text, hhdr', htext, hsplit⟩ := doAction_payload hemission
  rw [hsplit] at hpayload
  obtain ⟨hfilled, hrest⟩ := hself.unique _ _ _ _ _ hhdr' hpayload.symm
  exact ⟨hfilled.symm, text, htext, hrest.symm⟩

def trickyHeader : SyslogHeader where
  pri := 13
  ts := none
  host := some (ascii "h\\\"")
  app := some (ascii "]")
  procid := none
  msgid := none

theorem header_unambiguous_sample : ∃ element,
    hcsFormatSdHdr trickyHeader 1024 = some element ∧
      SelfDelimiting trickyHeader element ∧
      ∀ rest, PayloadTells sampleOpenSSL trickyHeader rest
        (element ++ rest) := by
  obtain ⟨element, helement⟩ := Option.isSome_iff_exists.mp
    (show (hcsFormatSdHdr trickyHeader 1024).isSome by decide +kernel)
  exact ⟨element, helement, header_unambiguous sampleOpenSSL trickyHeader
    1024 element helement⟩

/-! ## Headers that block the action -/

def PrintableUpTo (len : Nat) (field : Option Bytes) : Prop :=
  (field.getD []).length ≤ len ∧ ∀ c ∈ field.getD [], 33 ≤ c ∧ c ≤ 126

instance (len : Nat) (field : Option Bytes) :
    Decidable (PrintableUpTo len field) :=
  inferInstanceAs (Decidable (_ ∧ _))

structure LegalHeader (hdr : SyslogHeader) : Prop where
  pri : hdr.pri.toNat ≤ 191
  ts : PrintableUpTo 32 hdr.ts
  host : PrintableUpTo 255 hdr.host
  app : PrintableUpTo 48 hdr.app
  procid : PrintableUpTo 128 hdr.procid
  msgid : PrintableUpTo 32 hdr.msgid

/-- The process identifier and its special characters, each counted once more. -/
def ProcidFits (hdr : SyslogHeader) : Prop :=
  (hdr.procid.getD []).length + (hdr.procid.getD []).countP mustEscape < 136

theorem procidFits_iff (hdr : SyslogHeader) :
    ProcidFits hdr ↔ (sdEscape (hdr.procid.getD [])).length < 136 := by
  unfold ProcidFits sdEscape
  rw [Escape.escape_length]

theorem sdEscape_length_le (text : Bytes) :
    (sdEscape text).length ≤ 2 * text.length :=
  Escape.escape_length_le text

theorem LegalHeader.escapesFit_iff {hdr : SyslogHeader} (h : LegalHeader hdr) :
    EscapesFit hdr ↔ ProcidFits hdr := by
  rw [procidFits_iff]
  constructor
  · exact EscapesFit.procid
  · intro hprocid
    have hts := sdEscape_length_le (hdr.ts.getD [])
    have hhost := sdEscape_length_le (hdr.host.getD [])
    have happ := sdEscape_length_le (hdr.app.getD [])
    have hmsgid := sdEscape_length_le (hdr.msgid.getD [])
    have hts' := h.ts.1
    have hhost' := h.host.1
    have happ' := h.app.1
    have hmsgid' := h.msgid.1
    constructor <;> omega

/-- With the escape buffers as they are, the whole element always fits. -/
theorem LegalHeader.hdrText_length {hdr : SyslogHeader} (h : LegalHeader hdr)
    (hfit : EscapesFit hdr) :
    (hdrText hdr).length < Common.Limits.hcsSdHdrMaxLen := by
  have hpri : (decimal hdr.pri.toNat).length ≤ 3 :=
    decimal_length_le (by decide) (by have := h.pri; omega)
  have hts := hfit.ts
  have hhost := sdEscape_length_le (hdr.host.getD [])
  have happ := sdEscape_length_le (hdr.app.getD [])
  have hprocid := hfit.procid
  have hmsgid := sdEscape_length_le (hdr.msgid.getD [])
  have hhost' := h.host.1
  have happ' := h.app.1
  have hmsgid' := h.msgid.1
  have hprefix : (sdPrefix hcsSdHdrId).length = 27 := by decide
  have hliterals : (ascii "pri=\"").length = 5 ∧
      (ascii "\" ts=\"").length = 6 ∧ (ascii "\" host=\"").length = 8 ∧
      (ascii "\" app=\"").length = 7 ∧ (ascii "\" procid=\"").length = 10 ∧
      (ascii "\" msgid=\"").length = 9 ∧ (ascii "\"]").length = 2 := by
    decide
  obtain ⟨hl₁, hl₂, hl₃, hl₄, hl₅, hl₆, hl₇⟩ := hliterals
  rw [hdrText_eq]
  simp only [List.length_append, hprefix, hl₁, hl₂, hl₃, hl₄, hl₅, hl₆, hl₇,
    Common.Limits.hcsSdHdrMaxLen]
  omega

theorem LegalHeader.format_iff {hdr : SyslogHeader} (h : LegalHeader hdr) :
    hcsFormatSdHdr hdr Common.Limits.hcsSdHdrMaxLen ≠ none ↔
      ProcidFits hdr := by
  rw [← h.escapesFit_iff, Option.ne_none_iff_exists']
  constructor
  · rintro ⟨element, helement⟩
    exact (hcsFormatSdHdr_eq_some.mp helement).1
  · intro hfit
    exact ⟨_, hcsFormatSdHdr_eq_some.mpr ⟨hfit, h.hdrText_length hfit, rfl⟩⟩

/-- An action that suspends has handed its payload to the signing core. -/
def OnlyCoreSuspends (faults : ActionFaults) (wrkr : Worker ossl)
    (stateFile : Option Bytes) (msg : SyslogMsg) : Prop :=
  (doAction faults wrkr stateFile msg).ret = .suspended →
    ∃ cleaned, cleanedSd faults msg = .ok cleaned ∧
      (mmhashchainsigsProcessMsg faults.core wrkr stateFile
        (cleaned ++ msg.msg) Common.Limits.hcsSdWithCertMaxLen).1.sd = none

theorem strippedSd_ne_suspended (faults : ActionFaults) (sd : Bytes) :
    strippedSd faults sd ≠ .error .suspended := by
  unfold strippedSd
  split_ifs
  · exact nofun
  · exact nofun
  · split
    · exact nofun
    · split <;> exact nofun

theorem cleanedSd_suspended_iff (faults : ActionFaults) (msg : SyslogMsg) :
    cleanedSd faults msg = .error .suspended ↔
      hcsFormatSdHdr (syslogHeader msg) Common.Limits.hcsSdHdrMaxLen =
        none := by
  unfold cleanedSd
  split
  next hnone => exact iff_of_true rfl hnone
  next hdr hsome =>
    rw [hsome]
    refine iff_of_false ?_ nofun
    split
    next ret hret =>
      intro h
      cases h
      exact strippedSd_ne_suspended _ _ hret
    next => split_ifs <;> exact nofun

theorem onlyCoreSuspends_iff (faults : ActionFaults) (wrkr : Worker ossl)
    (stateFile : Option Bytes) (msg : SyslogMsg) :
    OnlyCoreSuspends faults wrkr stateFile msg ↔
      hcsFormatSdHdr (syslogHeader msg) Common.Limits.hcsSdHdrMaxLen ≠
        none := by
  rw [Ne, ← cleanedSd_suspended_iff faults msg]
  unfold OnlyCoreSuspends doAction
  cases hcleaned : cleanedSd faults msg with
  | error ret =>
      constructor
      · rintro h hret
        cases hret
        obtain ⟨cleaned, hok, -⟩ := h rfl
        cases hok
      · intro hne hret
        exact absurd (congrArg Except.error hret) hne
  | ok cleaned =>
      refine iff_of_true ?_ nofun
      simp only
      split_ifs
      · exact nofun
      · split
        next hnone => exact fun _ => ⟨cleaned, rfl, hnone⟩
        next => exact nofun
      · split
        next hnone => exact fun _ => ⟨cleaned, rfl, hnone⟩
        next => exact nofun

/--
A legal header is written, and does not suspend the action, exactly when its
process identifier fits the escape buffer.
-/
theorem legal_header_iff (ossl : OpenSSL) (hdr : SyslogHeader)
    (h : LegalHeader hdr) :
    (hcsFormatSdHdr hdr Common.Limits.hcsSdHdrMaxLen ≠ none ↔
      ProcidFits hdr) ∧
    ∀ faults (wrkr : Worker ossl) stateFile msg, syslogHeader msg = hdr →
      (OnlyCoreSuspends faults wrkr stateFile msg ↔ ProcidFits hdr) := by
  refine ⟨h.format_iff, ?_⟩
  rintro faults wrkr stateFile msg rfl
  rw [onlyCoreSuspends_iff]
  exact h.format_iff

theorem legal_header_iff_sample :
    LegalHeader trickyHeader ∧ ProcidFits trickyHeader ∧
      hcsFormatSdHdr trickyHeader Common.Limits.hcsSdHdrMaxLen ≠ none := by
  have hlegal : LegalHeader trickyHeader := by
    constructor <;> decide +kernel
  have hfits : ProcidFits trickyHeader := by
    unfold ProcidFits
    decide
  exact ⟨hlegal, hfits,
    (legal_header_iff sampleOpenSSL trickyHeader hlegal).1.mpr hfits⟩

def quotedMsg : SyslogMsg where
  pri := 13
  ts := some (ascii "2026-01-01T00:00:00Z")
  host := none
  app := none
  procid := some (List.replicate 68 quoteByte)
  msgid := none
  sd := none
  msg := []

theorem quotedMsg_suspends :
    LegalHeader (syslogHeader quotedMsg) ∧
      hcsFormatSdHdr (syslogHeader quotedMsg) Common.Limits.hcsSdHdrMaxLen =
        none ∧
      ∀ (ossl : OpenSSL) faults (wrkr : Worker ossl) stateFile,
        (doAction faults wrkr stateFile quotedMsg).ret = .suspended := by
  have hnone : hcsFormatSdHdr (syslogHeader quotedMsg)
      Common.Limits.hcsSdHdrMaxLen = none := by decide +kernel
  refine ⟨?_, hnone, ?_⟩
  · constructor <;> decide +kernel
  · intro ossl faults wrkr stateFile
    unfold doAction
    rw [(cleanedSd_suspended_iff faults quotedMsg).mpr hnone]

end MmHashChainSigs.Module
