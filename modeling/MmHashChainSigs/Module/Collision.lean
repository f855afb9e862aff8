import MmHashChainSigs.Common.Header
import MmHashChainSigs.Module.Records

/-!
# Client elements with the signer's identifiers

`doAction` strips the client's structured data of both identifiers, one pass
after the other.  A pass puts the two sides of what it removes together, and
never looks at the place again, so a prefix that is broken into pieces by whole
elements is whole again behind the passes.
-/

namespace MmHashChainSigs.Module

open MmHashChainSigs.Foundation
open MmHashChainSigs.Common

variable {ossl : OpenSSL}

/-! ## One pass -/

/-- Nothing is left to strip, and stripping again changes nothing. -/
def StripsCleanly (src sdId : Bytes) : Prop :=
  ∀ cap out removed, hcsStripAllSd src sdId cap = some (out, removed) →
    ¬ sdPrefix sdId <:+: out ∧
      (hcsStripAllSd out sdId cap).map Prod.fst = some out

/--
Outside of the elements of the identifier its prefix is spelled, in pieces with
elements between them.
-/
def SpelledAround (sdId src : Bytes) : Prop :=
  ∃ front rest,
    Skipping.Reads (ElementAt sdId) (front ++ sdPrefix sdId) src rest

theorem infix_iff_begins {pattern text : Bytes} :
    pattern <:+: text ↔ ∃ front, front ++ pattern <+: text := by
  constructor
  · rintro ⟨front, after, h⟩
    exact ⟨front, after, h⟩
  · rintro ⟨front, after, h⟩
    exact ⟨front, after, h⟩

theorem LeavesOut.spelled_iff {sdId src out : Bytes}
    (h : LeavesOut sdId src out) :
    sdPrefix sdId <:+: out ↔ SpelledAround sdId src := by
  rw [infix_iff_begins]
  exact exists_congr fun front =>
    Skipping.Leaves.prefix_iff (isPart_elementAt sdId) h _

theorem hcsStripAllSd_some {src sdId out : Bytes} {cap : Nat} {removed : Bool}
    (h : hcsStripAllSd src sdId cap = some (out, removed)) :
    (sdPrefix sdId).length < 80 ∧ LeavesOut sdId src out ∧
      out.length < cap := by
  by_cases hid : (sdPrefix sdId).length < 80
  · obtain ⟨left, hleft⟩ := exists_leavesOut sdId src
    rw [hcsStripAllSd_leavesOut hid hleft] at h
    split_ifs at h with hcap
    cases h
    exact ⟨hid, hleft, hcap⟩
  · unfold hcsStripAllSd at h
    rw [if_pos (by omega)] at h
    cases h

theorem leavesOut_self {sdId text : Bytes}
    (h : ¬ sdPrefix sdId <:+: text) : LeavesOut sdId text text := by
  apply Skipping.leaves_self
  intro rest hrest hstarts
  apply h
  exact (show sdPrefix sdId <+: rest from
    starts_elementAt.mp hstarts).isInfix.trans hrest.isInfix

theorem stripsCleanly_iff (src sdId : Bytes) :
    StripsCleanly src sdId ↔
      ((sdPrefix sdId).length < 80 → ¬ SpelledAround sdId src) := by
  constructor
  · intro h hid
    obtain ⟨out, hout⟩ := exists_leavesOut sdId src
    have hstrip := hcsStripAllSd_leavesOut hid hout (out.length + 1)
    rw [if_pos (Nat.lt_succ_self _)] at hstrip
    rw [← LeavesOut.spelled_iff hout]
    exact (h _ _ _ hstrip).1
  · intro h cap out removed hstrip
    obtain ⟨hid, hout, hcap⟩ := hcsStripAllSd_some hstrip
    have hclean : ¬ sdPrefix sdId <:+: out := by
      rw [LeavesOut.spelled_iff hout]
      exact h hid
    refine ⟨hclean, ?_⟩
    rw [hcsStripAllSd_leavesOut hid (leavesOut_self hclean), if_pos hcap]
    rfl

/-! ## Both passes -/

def ReadsHeader (body text rest : Bytes) : Prop :=
  Unquoted body ∧ Skipping.Reads (ElementAt hcsSdId)
    (sdPrefix hcsSdHdrId ++ (body ++ [bracketByte])) text rest

/--
A header element of the client's data, which elements of the chain may break
into pieces: up to the bracket that closes it, or the whole text.
-/
def HeaderAround (text rest : Bytes) : Prop :=
  (∃ body, ReadsHeader body text rest) ∨
    rest = [] ∧
      (∃ after, Skipping.Reads (ElementAt hcsSdId) (sdPrefix hcsSdHdrId)
        text after) ∧
      ¬ ∃ body after, ReadsHeader body text after

/-- An element of the chain, and elsewhere one of the header. -/
def OwnElementAt : Bytes → Bytes → Prop :=
  Skipping.Either (ElementAt hcsSdId) HeaderAround

/--
Outside of the elements of both identifiers a prefix is spelled behind `front`,
in pieces with such elements between them.
-/
def SpelledBehind (front sdId sd : Bytes) : Prop :=
  ∃ rest, Skipping.Reads OwnElementAt (front ++ sdPrefix sdId) sd rest

inductive OwnId : Bytes → Prop where
  | chain : OwnId hcsSdId
  | header : OwnId hcsSdHdrId

def NothingSpelled (sd : Bytes) : Prop :=
  ∀ sdId, OwnId sdId → ∀ front, ¬ SpelledBehind front sdId sd

def StartsNone (text : Bytes) : Prop :=
  ∀ sdId, OwnId sdId → ¬ sdPrefix sdId <:+: text

def CollisionFree (sd : Bytes) : Prop :=
  ∀ faults text, strippedSd faults sd = .ok text → StartsNone text

theorem headerAround_seen {text rest left : Bytes}
    (h : HeaderAround text rest) (hleft : LeavesOut hcsSdId text left) :
    ∃ left', LeavesOut hcsSdId rest left' ∧
      ElementAt hcsSdHdrId left left' := by
  have hchain := isPart_elementAt hcsSdId
  rcases h with ⟨body, hbody, hreads⟩ | ⟨rfl, ⟨after, hreads⟩, hopen⟩
  · obtain ⟨left', hleft'⟩ := exists_leavesOut hcsSdId rest
    have hwhole := hleft.unique hchain (hreads.leaves hleft')
    refine ⟨left', hleft', body ++ bracketByte :: left', ?_,
      .inl ⟨body, rfl, hbody⟩⟩
    rw [hwhole]
    simp
  · refine ⟨[], leavesOut_self (by decide), ?_⟩
    obtain ⟨left', hleft'⟩ := exists_leavesOut hcsSdId after
    have hwhole := hleft.unique hchain (hreads.leaves hleft')
    refine ⟨left', hwhole, .inr ⟨rfl, ?_⟩⟩
    rintro ⟨body, behind, rfl, hbody⟩
    -- A bracket that closes the element in the rest also closes it here.
    have hclosed : Skipping.Leaves (ElementAt hcsSdId) text
        (sdPrefix hcsSdHdrId ++ (body ++ [bracketByte]) ++ behind) := by
      rw [hwhole, ← List.singleton_append, ← List.append_assoc body,
        ← List.append_assoc] at hleft
      exact hleft
    obtain ⟨rest, hrest, -⟩ := hclosed.reads
    exact hopen ⟨body, rest, hbody, hrest⟩

theorem headerAround_starts {text left : Bytes}
    (hleft : LeavesOut hcsSdId text left)
    (hstarts : Skipping.Starts (ElementAt hcsSdHdrId) left) :
    Skipping.Starts HeaderAround text := by
  by_cases hclosed : ∃ body after, ReadsHeader body text after
  · obtain ⟨body, after, hreads⟩ := hclosed
    exact ⟨after, .inl ⟨body, hreads⟩⟩
  · obtain ⟨inside, rfl⟩ := starts_elementAt.mp hstarts
    obtain ⟨after, hreads, -⟩ := Skipping.Leaves.reads hleft
    exact ⟨[], .inr ⟨rfl, ⟨after, hreads⟩, hclosed⟩⟩

theorem readsHeader_unique {body body' text rest rest' : Bytes}
    (h : ReadsHeader body text rest) (h' : ReadsHeader body' text rest') :
    rest = rest' := by
  have hchain := isPart_elementAt hcsSdId
  obtain ⟨left, hleft⟩ := exists_leavesOut hcsSdId rest
  obtain ⟨left', hleft'⟩ := exists_leavesOut hcsSdId rest'
  have hsame := (h.2.leaves hleft).unique hchain (h'.2.leaves hleft')
  simp only [List.append_assoc, List.append_cancel_left_eq,
    List.singleton_append] at hsame
  -- The same bracket closes the element.
  have hscan : sdScanElement false (body ++ bracketByte :: left) = left :=
    ClosesAt.scanElement ⟨rfl, h.1⟩
  have hscan' : sdScanElement false (body' ++ bracketByte :: left') = left' :=
    ClosesAt.scanElement ⟨rfl, h'.1⟩
  have hbehind : left = left' := by
    rw [← hscan, hsame, hscan']
  rw [hbehind] at hsame
  have hbody : body = body' := List.append_cancel_right hsame
  rw [← hbody] at h'
  exact h.2.unique hchain h'.2

theorem isPart_headerAround : Skipping.IsPart HeaderAround where
  unique := by
    rintro text rest rest' (⟨body, hreads⟩ | ⟨rfl, -, hopen⟩)
      (⟨body', hreads'⟩ | ⟨rfl, -, hopen'⟩)
    · exact readsHeader_unique hreads hreads'
    · exact absurd ⟨body, _, hreads⟩ hopen'
    · exact absurd ⟨body', _, hreads'⟩ hopen
    · rfl
  suffix := by
    rintro text rest (⟨body, -, hreads⟩ | ⟨rfl, -, -⟩)
    · exact hreads.suffix (isPart_elementAt _)
    · exact List.nil_suffix
  shorter := by
    have hpos : 0 < (sdPrefix hcsSdHdrId).length := by decide
    rintro text rest (⟨body, -, hreads⟩ | ⟨rfl, ⟨after, hreads⟩, -⟩)
    · have hlen := hreads.length (isPart_elementAt _)
      rw [List.length_append] at hlen
      omega
    · have hlen := hreads.length (isPart_elementAt _)
      rw [List.length_nil]
      omega

theorem isPart_ownElementAt : Skipping.IsPart OwnElementAt :=
  Skipping.Either.isPart (isPart_elementAt _) isPart_headerAround

theorem leaves_ownElements {sd left text : Bytes}
    (hleft : LeavesOut hcsSdId sd left)
    (htext : LeavesOut hcsSdHdrId left text) :
    Skipping.Leaves OwnElementAt sd text :=
  Skipping.Leaves.compose (isPart_elementAt _) (isPart_elementAt _)
    isPart_headerAround ⟨headerAround_seen, headerAround_starts⟩ hleft htext

theorem strippedSd_leavesOut {sd left text : Bytes}
    (hleft : LeavesOut hcsSdId sd left)
    (htext : LeavesOut hcsSdHdrId left text) (faults : ActionFaults) :
    strippedSd faults sd =
      if sd = [] then .ok []
      else if faults.stripped then .error .outOfMemory else .ok text := by
  have hfirst := hcsStripAllSd_leavesOut (by decide +kernel) hleft
    (sd.length + 1)
  have hsecond := hcsStripAllSd_leavesOut (by decide +kernel) htext
    (sd.length + 1)
  have hle := hleft.length_le
  have hle' := htext.length_le
  rw [if_pos (by omega)] at hfirst hsecond
  unfold strippedSd
  rw [hfirst]
  simp only [hsecond]

theorem leavesOut_nil {sdId out : Bytes} (h : LeavesOut sdId [] out) :
    out = [] := List.eq_nil_of_length_eq_zero (Nat.le_zero.mp h.length_le)

theorem exists_strippedSd (sd : Bytes) :
    ∃ text, strippedSd {} sd = .ok text := by
  obtain ⟨left, hleft⟩ := exists_leavesOut hcsSdId sd
  obtain ⟨text, htext⟩ := exists_leavesOut hcsSdHdrId left
  rw [strippedSd_leavesOut hleft htext]
  by_cases hnil : sd = []
  · exact ⟨[], if_pos hnil⟩
  · exact ⟨text, if_neg hnil⟩

theorem strippedSd_leaves {faults : ActionFaults} {sd text : Bytes}
    (hok : strippedSd faults sd = .ok text) :
    Skipping.Leaves OwnElementAt sd text := by
  obtain ⟨left, hleft⟩ := exists_leavesOut hcsSdId sd
  obtain ⟨out, hout⟩ := exists_leavesOut hcsSdHdrId left
  have hwhole := leaves_ownElements hleft hout
  rw [strippedSd_leavesOut hleft hout] at hok
  split_ifs at hok with hnil hfault
  · cases hok
    rw [hnil] at hleft
    rw [leavesOut_nil hleft] at hout
    rwa [leavesOut_nil hout] at hwhole
  · cases hok
    exact hwhole

/-- What starts in the rest of the data is spelled in the data. -/
theorem strippedSd_spelled_iff {faults : ActionFaults} {sd text : Bytes}
    (hok : strippedSd faults sd = .ok text) (front sdId : Bytes) :
    front ++ sdPrefix sdId <+: text ↔ SpelledBehind front sdId sd :=
  Skipping.Leaves.prefix_iff isPart_ownElementAt (strippedSd_leaves hok) _

theorem strippedSd_startsNone {faults : ActionFaults} {sd text : Bytes}
    (hok : strippedSd faults sd = .ok text) :
    StartsNone text ↔ NothingSpelled sd := by
  unfold StartsNone NothingSpelled
  simp only [infix_iff_begins, strippedSd_spelled_iff hok, not_exists]

theorem collisionFree_iff (sd : Bytes) :
    CollisionFree sd ↔ NothingSpelled sd := by
  constructor
  · intro h
    obtain ⟨text, hok⟩ := exists_strippedSd sd
    exact (strippedSd_startsNone hok).mp (h _ _ hok)
  · intro h faults text hok
    exact (strippedSd_startsNone hok).mpr h

/-! ## The emitted line -/

def StartsOnce (newSd : Bytes) : Prop :=
  ∀ sdId, OwnId sdId → elementStarts sdId newSd = 1

def LineClean (faults : ActionFaults) (wrkr : Worker ossl)
    (stateFile : Option Bytes) (msg : SyslogMsg) : Prop :=
  ∀ newSd, (doAction faults wrkr stateFile msg).newSd = some newSd →
    StartsOnce newSd

/--
No field of the header contains a prefix, and none is spelled in the client's
data with no NUL byte in front of it.
-/
structure SpellsNothing (msg : SyslogMsg) : Prop where
  header : ∀ sdId, OwnId sdId → ∀ param ∈ hdrParams (syslogHeader msg),
    ¬ sdPrefix sdId <:+: param.2
  client : ∀ sdId, OwnId sdId → ∀ front, 0 ∉ front →
    ¬ SpelledBehind front sdId (clientSd msg)

theorem spellsNothing_iff {msg : SyslogMsg} :
    SpellsNothing msg ↔ ∀ sdId, OwnId sdId →
      (∀ param ∈ hdrParams (syslogHeader msg), ¬ sdPrefix sdId <:+: param.2) ∧
      ∀ front, 0 ∉ front → ¬ SpelledBehind front sdId (clientSd msg) :=
  ⟨fun h sdId hid => ⟨h.header sdId hid, h.client sdId hid⟩,
    fun h => ⟨fun sdId hid => (h sdId hid).1, fun sdId hid => (h sdId hid).2⟩⟩

theorem OwnId.plain {sdId : Bytes} (h : OwnId sdId) : PlainId sdId := by
  cases h <;> decide +kernel

theorem OwnId.not_mem_prefix {sdId : Bytes} (h : OwnId sdId) :
    0 ∉ sdPrefix sdId := by
  cases h <;> decide +kernel

theorem element_starts {privkey : ossl.Pkey} {fp : Bytes}
    {next : HashchainCtx} {sigSeqFrom : UInt64} {sd : Bytes}
    {record : HcsSdRecord}
    (h : Element ossl privkey fp next sigSeqFrom sd record) {sdId : Bytes}
    (hid : OwnId sdId) (rest : Bytes) :
    elementStarts sdId (sd ++ rest) =
      (if sdId = hcsSdId then 1 else 0) + elementStarts sdId rest := by
  have hplain := hid.plain
  obtain ⟨params, cert, rfl, hparams, hcert⟩ := h.inner
  have hnone : ∀ {inside}, Inner inside → elementStarts sdId inside = 0 :=
    fun hinside => elementStarts_of_no_opening
      (fun hmem => (hinside _ hmem).2 rfl) sdId
  have hsuffix : elementStarts sdId (cert ++ rest) =
      elementStarts sdId rest := by
    rcases hcert with rfl | ⟨inside, hinside, rfl⟩
    · rfl
    · have hother : sdId ≠ hcsSdCertId := by
        cases hid <;> decide +kernel
      rw [List.append_assoc, List.append_assoc, List.singleton_append,
        elementStarts_sdPrefix hplain (by decide +kernel), if_neg hother,
        elementStarts_gap hplain (.inr rfl), hnone hinside]
      omega
  rw [elementText, List.append_assoc, List.append_assoc, List.append_assoc,
    List.singleton_append, elementStarts_sdPrefix hplain (by decide +kernel),
    elementStarts_gap hplain (.inr rfl), hnone hparams, hsuffix]
  omega

theorem not_mem_hdrText (msg : SyslogMsg) :
    0 ∉ hdrText (syslogHeader msg) := by
  have hfield : ∀ {value : Bytes}, 0 ∉ value → 0 ∉ sdEscape value := by
    intro value hvalue hmem
    rcases Escape.eq_mark_or_mem_of_mem_escape hmem with hmark | hmem
    · exact absurd hmark (by decide)
    · exact hvalue hmem
  have hoption : ∀ value : Option Bytes,
      0 ∉ sdEscape ((value.map cString).getD []) := by
    rintro (_ | value)
    · decide
    · exact hfield (not_mem_cString value)
  have hpri : 0 ∉ decimal msg.pri.toNat := fun hmem =>
    absurd (inner_decimal _ 0 hmem).1 (by decide)
  have hliterals : 0 ∉ sdPrefix hcsSdHdrId ∧ 0 ∉ ascii "pri=\"" ∧
      0 ∉ ascii "\" ts=\"" ∧ 0 ∉ ascii "\" host=\"" ∧
      0 ∉ ascii "\" app=\"" ∧ 0 ∉ ascii "\" procid=\"" ∧
      0 ∉ ascii "\" msgid=\"" ∧ 0 ∉ ascii "\"]" := by
    decide +kernel
  obtain ⟨h₁, h₂, h₃, h₄, h₅, h₆, h₇, h₈⟩ := hliterals
  rw [hdrText_eq]
  simp only [syslogHeader, Option.getD_some, List.mem_append, h₁, h₂, h₃, h₄,
    h₅, h₆, h₇, h₈, hpri, hoption, hfield (not_mem_cString _), or_self,
    not_false_eq_true]

theorem doAction_newSd {faults : ActionFaults} {wrkr : Worker ossl}
    {stateFile : Option Bytes} {msg : SyslogMsg} {newSd : Bytes}
    (h : (doAction faults wrkr stateFile msg).newSd = some newSd) :
    ∃ sd hdr text, (doAction faults wrkr stateFile msg).emission =
        some ⟨sd, hdr ++ text ++ msg.msg, storedLine newSd msg⟩ ∧
      newSd = cString (sd ++ (hdr ++ text)) ∧
      (∃ privkey fp next sigSeqFrom record,
        fp.length = Common.Limits.hcsHashLen ∧
        Element ossl privkey fp next sigSeqFrom sd record) ∧
      hcsFormatSdHdr (syslogHeader msg) Common.Limits.hcsSdHdrMaxLen =
        some hdr ∧ strippedSd faults (clientSd msg) = .ok text := by
  revert h
  unfold doAction
  cases hcleaned : cleanedSd faults msg with
  | error ret => exact nofun
  | ok cleaned =>
      simp only
      cases faults.payload with
      | true => exact nofun
      | false =>
        simp only [Bool.false_eq_true, if_false]
        cases hsd : (mmhashchainsigsProcessMsg faults.core wrkr stateFile
            (cleaned ++ msg.msg) Common.Limits.hcsSdWithCertMaxLen).1.sd with
        | none => exact nofun
        | some sd =>
            cases faults.newSd with
            | true => exact nofun
            | false =>
              intro h
              cases h
              unfold cleanedSd at hcleaned
              split at hcleaned
              · cases hcleaned
              next hdr hhdr =>
                split at hcleaned
                · cases hcleaned
                next text htext =>
                  split_ifs at hcleaned
                  cases hcleaned
                  exact ⟨sd, hdr, text, rfl, rfl, processMsg_some hsd, hhdr,
                    htext⟩

theorem lineClean_iff (faults : ActionFaults) (wrkr : Worker ossl)
    (stateFile : Option Bytes) (msg : SyslogMsg) :
    LineClean faults wrkr stateFile msg ↔
      ((doAction faults wrkr stateFile msg).newSd ≠ none →
        SpellsNothing msg) := by
  unfold LineClean
  cases hnewSd : (doAction faults wrkr stateFile msg).newSd with
  | none => exact iff_of_true nofun (absurd rfl)
  | some newSd =>
      obtain ⟨sd, hdr, text, -, rfl,
        ⟨privkey, fp, next, sigSeqFrom, record, -, helement⟩, hhdr, htext⟩ :=
          doAction_newSd hnewSd
      have hsd : 0 ∉ sd := fun hmem =>
        absurd (helement.printable 0 hmem) (by decide)
      have hhdrText : hdr = hdrText (syslogHeader msg) :=
        (hcsFormatSdHdr_eq_some.mp hhdr).2.2
      have hcut : cString (sd ++ (hdr ++ text)) =
          sd ++ (hdrText (syslogHeader msg) ++ cString text) := by
        rw [cString_append hsd, hhdrText,
          cString_append (not_mem_hdrText msg)]
      simp only [Option.some.injEq, forall_eq', ne_eq, reduceCtorEq,
        not_false_eq_true, true_imp_iff, hcut]
      rw [spellsNothing_iff]
      refine forall_congr' fun sdId => forall_congr' fun hid => ?_
      have hone : (if sdId = hcsSdId then 1 else 0) +
          (if sdId = hcsSdHdrId then 1 else 0) = 1 := by
        cases hid <;> decide +kernel
      have htextStarts : elementStarts sdId (cString text) = 0 ↔
          ∀ front, 0 ∉ front → ¬ SpelledBehind front sdId (clientSd msg) := by
        rw [elementStarts_eq_zero_iff, infix_iff_begins]
        simp only [prefix_cString_iff, strippedSd_spelled_iff htext,
          List.mem_append, hid.not_mem_prefix, or_false, not_exists, not_and']
      rw [element_starts helement hid, hdrText_starts hid.plain,
        ← hdrText_spells_iff hid.plain, ← htextStarts]
      omega

/-- One pass, both passes, and the line that goes out behind them. -/
theorem collision_policy_iff (ossl : OpenSSL) :
    (∀ src sdId, StripsCleanly src sdId ↔
      ((sdPrefix sdId).length < 80 → ¬ SpelledAround sdId src)) ∧
    (∀ sd, CollisionFree sd ↔ NothingSpelled sd) ∧
    (∀ faults (wrkr : Worker ossl) stateFile msg,
      LineClean faults wrkr stateFile msg ↔
        ((doAction faults wrkr stateFile msg).newSd ≠ none →
          SpellsNothing msg)) := by
  constructor
  · exact stripsCleanly_iff
  · exact ⟨collisionFree_iff, lineClean_iff⟩

def splitElement (sdId : Bytes) : Bytes :=
  ascii "[mmhashchai" ++ sdPrefix sdId ++ ascii "a=\"1\"]nsigs@32473 b=\"2\"]"

/-- What is left is a chain element, which the next pass would remove. -/
theorem collision_policy_fails :
    ¬ StripsCleanly (splitElement hcsSdId) hcsSdId ∧
      ¬ CollisionFree (splitElement hcsSdId) ∧
      ¬ CollisionFree (splitElement hcsSdHdrId) ∧
      hcsStripAllSd (splitElement hcsSdId) hcsSdId 100 =
        some (ascii "[mmhashchainsigs@32473 b=\"2\"]", true) := by
  have hleft : hcsStripAllSd (splitElement hcsSdId) hcsSdId 100 =
      some (ascii "[mmhashchainsigs@32473 b=\"2\"]", true) := by
    decide +kernel
  have hbegins : sdPrefix hcsSdId <:+:
      ascii "[mmhashchainsigs@32473 b=\"2\"]" := by
    decide +kernel
  refine ⟨?_, ?_, ?_, hleft⟩
  · intro h
    exact (h 100 _ _ hleft).1 hbegins
  · intro h
    exact h {} (ascii "[mmhashchainsigs@32473 b=\"2\"]")
      (by decide +kernel) hcsSdId .chain hbegins
  · intro h
    exact h {} (ascii "[mmhashchainsigs@32473 b=\"2\"]")
      (by decide +kernel) hcsSdId .chain hbegins

end MmHashChainSigs.Module
