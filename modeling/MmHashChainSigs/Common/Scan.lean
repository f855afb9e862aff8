import MmHashChainSigs.Common.Format

/-!
# Where an element ends

`hcs_format.c` looks for the closing bracket of an element in two places, with
the same loop written twice.  The loops agree on every text whose quotes are
closed; on the others the copy in `hcs_strip_sd_from_line` steps over the end.
-/

namespace MmHashChainSigs.Common

open MmHashChainSigs.Foundation

/-! ## Quotes -/

/-- A text between two quotes, in which a backslash takes the next byte along. -/
inductive Quoted : Bytes → Prop where
  | nil : Quoted []
  | char {c : UInt8} {text : Bytes} (hquote : c ≠ quoteByte)
      (hback : c ≠ backslashByte) (h : Quoted text) : Quoted (c :: text)
  | escape {d : UInt8} {text : Bytes} (h : Quoted text) :
      Quoted (backslashByte :: d :: text)

inductive Unquoted : Bytes → Prop where
  | nil : Unquoted []
  | char {c : UInt8} {text : Bytes} (hquote : c ≠ quoteByte)
      (hbracket : c ≠ bracketByte) (h : Unquoted text) : Unquoted (c :: text)
  | quoted {value text : Bytes} (hvalue : Quoted value)
      (h : Unquoted text) :
      Unquoted (quoteByte :: (value ++ quoteByte :: text))

theorem Unquoted.append {first second : Bytes} (h : Unquoted first)
    (hsecond : Unquoted second) : Unquoted (first ++ second) := by
  induction h with
  | nil => exact hsecond
  | char hquote hbracket _ ih => exact .char hquote hbracket ih
  | quoted hvalue _ ih =>
      rw [List.cons_append, List.append_assoc, List.cons_append]
      exact .quoted hvalue ih

theorem unquoted_of_ne {text : Bytes}
    (h : ∀ c ∈ text, c ≠ quoteByte ∧ c ≠ bracketByte) : Unquoted text := by
  induction text with
  | nil => exact .nil
  | cons c text ih =>
      rw [List.forall_mem_cons] at h
      exact .char h.1.1 h.1.2 (ih h.2)

theorem Unquoted.getLast?_ne {body : Bytes} (h : Unquoted body) :
    body.getLast? ≠ some bracketByte := by
  induction h with
  | nil => simp
  | @char c text hquote hbracket _ ih =>
      by_cases hnil : text = []
      · rw [hnil]
        simpa using hbracket
      · rwa [← List.singleton_append, List.getLast?_append_of_ne_nil _ hnil]
  | @quoted value text hvalue _ ih =>
      rw [← List.cons_append]
      by_cases hnil : text = []
      · rw [hnil, List.getLast?_append_of_ne_nil _ (List.cons_ne_nil _ _)]
        decide
      · rw [List.getLast?_append_of_ne_nil _ (List.cons_ne_nil _ _),
          ← List.singleton_append, List.getLast?_append_of_ne_nil _ hnil]
        exact ih

/-- The closing bracket, and what is in front of it and behind it. -/
def ClosesAt (text body after : Bytes) : Prop :=
  text = body ++ bracketByte :: after ∧ Unquoted body

def QuotesClosed (text : Bytes) : Prop :=
  Unquoted text ∨ ∃ body after, ClosesAt text body after

/-! ## The two scans -/

@[simp] theorem sdScanElement_quote (text : Bytes) :
    sdScanElement true (quoteByte :: text) = sdScanElement false text := by
  cases text <;> simp [sdScanElement]

theorem sdScanElement_quoted {c : UInt8} (hquote : c ≠ quoteByte)
    (hback : c ≠ backslashByte) (text : Bytes) :
    sdScanElement true (c :: text) = sdScanElement true text := by
  cases text <;> simp [sdScanElement, hquote, hback]

theorem Quoted.scanLine {value : Bytes} (h : Quoted value) (rest : Bytes) :
    sdScanLine true (value ++ quoteByte :: rest) = sdScanLine false rest := by
  induction h with
  | nil => exact sdScanLine_quote rest
  | char hquote hback _ ih =>
      rw [List.cons_append, sdScanLine_quoted hquote hback]
      exact ih
  | escape _ ih =>
      have hne : backslashByte ≠ quoteByte := by decide
      simp only [List.cons_append, sdScanLine, if_neg hne, if_true]
      exact ih

theorem Quoted.scanElement {value : Bytes} (h : Quoted value)
    (rest : Bytes) :
    sdScanElement true (value ++ quoteByte :: rest) =
      sdScanElement false rest := by
  induction h with
  | nil => exact sdScanElement_quote rest
  | char hquote hback _ ih =>
      rw [List.cons_append, sdScanElement_quoted hquote hback]
      exact ih
  | escape _ ih =>
      have hne : backslashByte ≠ quoteByte := by decide
      simp only [List.cons_append, sdScanElement, if_neg hne, if_true]
      exact ih

theorem Quoted.paramValue {value : Bytes} (h : Quoted value) (rest : Bytes) :
    sdParamValue (value ++ quoteByte :: rest) = some (value, rest) := by
  induction h with
  | nil => exact sdParamValue_quote rest
  | char hquote hback _ ih =>
      rw [List.cons_append, sdParamValue_cons hquote hback, ih]
      rfl
  | escape _ ih =>
      simp only [List.cons_append, sdParamValue, ih]
      rfl

theorem Unquoted.scanLine {body : Bytes} (h : Unquoted body) (rest : Bytes) :
    sdScanLine false (body ++ rest) = sdScanLine false rest := by
  induction h with
  | nil => rfl
  | char hquote hbracket _ ih =>
      rw [List.cons_append, sdScanLine, if_neg hquote, if_neg hbracket]
      exact ih
  | quoted hvalue _ ih =>
      rw [List.cons_append, sdScanLine, if_pos rfl, List.append_assoc,
        List.cons_append, hvalue.scanLine]
      exact ih

theorem Unquoted.scanElement {body : Bytes} (h : Unquoted body)
    (rest : Bytes) :
    sdScanElement false (body ++ rest) = sdScanElement false rest := by
  induction h with
  | nil => rfl
  | char hquote hbracket _ ih =>
      rw [List.cons_append, sdScanElement, if_neg hquote, if_neg hbracket]
      exact ih
  | quoted hvalue _ ih =>
      rw [List.cons_append, sdScanElement, if_pos rfl, List.append_assoc,
        List.cons_append, hvalue.scanElement]
      exact ih

theorem ClosesAt.scanLine {text body after : Bytes}
    (h : ClosesAt text body after) : sdScanLine false text = some after := by
  rw [h.1, h.2.scanLine, sdScanLine, if_neg (by decide), if_pos rfl]

theorem ClosesAt.scanElement {text body after : Bytes}
    (h : ClosesAt text body after) : sdScanElement false text = after := by
  rw [h.1, h.2.scanElement, sdScanElement, if_neg (by decide), if_pos rfl]

def ScanCloses : Bool → Bytes → Bytes → Prop
  | false, text, after => ∃ body, ClosesAt text body after
  | true, text, after => ∃ value rest, text = value ++ quoteByte :: rest ∧
      Quoted value ∧ ∃ body, ClosesAt rest body after

theorem ClosesAt.char {c : UInt8} {text body after : Bytes}
    (hquote : c ≠ quoteByte) (hbracket : c ≠ bracketByte)
    (h : ClosesAt text body after) : ClosesAt (c :: text) (c :: body) after :=
  ⟨by rw [h.1]; rfl, .char hquote hbracket h.2⟩

theorem sdScanElement_closes (quoted : Bool) (text : Bytes) :
    ScanCloses quoted text (sdScanElement quoted text) ∨
      sdScanElement quoted text = [] := by
  induction quoted, text using sdScanElement.induct with
  | case1 => exact .inr rfl
  | case2 text ih =>
      rw [sdScanElement, if_pos rfl]
      refine ih.imp_left ?_
      generalize sdScanElement true text = after
      rintro ⟨value, rest, rfl, hvalue, body, rfl, hbody⟩
      refine ⟨quoteByte :: (value ++ quoteByte :: body), ?_,
        .quoted hvalue hbody⟩
      simp
  | case3 text hne =>
      rw [sdScanElement, if_neg hne, if_pos rfl]
      exact .inl ⟨[], rfl, .nil⟩
  | case4 c text hquote hbracket ih =>
      rw [sdScanElement, if_neg hquote, if_neg hbracket]
      exact ih.imp_left fun ⟨body, h⟩ => ⟨_, h.char hquote hbracket⟩
  | case5 text ih =>
      rw [sdScanElement_quote]
      exact ih.imp_left fun h => ⟨[], text, rfl, .nil, h⟩
  | case6 hne => exact .inr (by simp [sdScanElement, hne])
  | case7 d text hne ih =>
      simp only [sdScanElement, hne, if_false, if_true]
      refine ih.imp_left ?_
      rintro ⟨value, rest, rfl, hvalue, h⟩
      exact ⟨backslashByte :: d :: value, rest, rfl, .escape hvalue, h⟩
  | case8 c text hquote hback ih =>
      rw [sdScanElement_quoted hquote hback]
      refine ih.imp_left ?_
      rintro ⟨value, rest, rfl, hvalue, h⟩
      exact ⟨c :: value, rest, rfl, .char hquote hback hvalue, h⟩

theorem sdScanElement_of_open {text : Bytes}
    (h : ¬ ∃ body after, ClosesAt text body after) :
    sdScanElement false text = [] := by
  refine (sdScanElement_closes false text).resolve_left ?_
  rintro ⟨body, hcloses⟩
  exact h ⟨body, _, hcloses⟩

theorem QuotesClosed.same_end {text : Bytes} (h : QuotesClosed text) :
    sdScanLine false text = some (sdScanElement false text) := by
  rcases h with hopen | ⟨body, after, hcloses⟩
  · have hline := hopen.scanLine []
    have helement := hopen.scanElement []
    rw [List.append_nil] at hline helement
    rw [hline, helement]
    rfl
  · rw [hcloses.scanLine, hcloses.scanElement]

def ClosesFrom : Bool → Bytes → Prop
  | false, text => QuotesClosed text
  | true, text => ∃ value rest, text = value ++ quoteByte :: rest ∧
      Quoted value ∧ QuotesClosed rest

theorem QuotesClosed.char {c : UInt8} {text : Bytes} (hquote : c ≠ quoteByte)
    (hbracket : c ≠ bracketByte) (h : QuotesClosed text) :
    QuotesClosed (c :: text) := by
  rcases h with hopen | ⟨body, after, rfl, hbody⟩
  · exact .inl (.char hquote hbracket hopen)
  · exact .inr ⟨c :: body, after, rfl, .char hquote hbracket hbody⟩

theorem QuotesClosed.quoted {value text : Bytes} (hvalue : Quoted value)
    (h : QuotesClosed text) :
    QuotesClosed (quoteByte :: (value ++ quoteByte :: text)) := by
  rcases h with hopen | ⟨body, after, rfl, hbody⟩
  · exact .inl (.quoted hvalue hopen)
  · refine .inr ⟨quoteByte :: (value ++ quoteByte :: body), after, ?_,
      .quoted hvalue hbody⟩
    simp

theorem closesFrom_of_scan {quoted : Bool} {text after : Bytes}
    (h : sdScanLine quoted text = some after) : ClosesFrom quoted text := by
  induction quoted, text using sdScanLine.induct with
  | case1 => exact .inl .nil
  | case2 => simp [sdScanLine] at h
  | case3 text ih =>
      rw [sdScanLine, if_pos rfl] at h
      obtain ⟨value, rest, rfl, hvalue, hrest⟩ := ih h
      exact hrest.quoted hvalue
  | case4 text hne => exact .inr ⟨[], text, rfl, .nil⟩
  | case5 c text hquote hbracket ih =>
      rw [sdScanLine, if_neg hquote, if_neg hbracket] at h
      exact (ih h).char hquote hbracket
  | case6 text ih =>
      rw [sdScanLine_quote] at h
      exact ⟨[], text, rfl, .nil, ih h⟩
  | case7 hne => simp [sdScanLine, hne] at h
  | case8 d text hne ih =>
      simp only [sdScanLine, hne, if_false, if_true] at h
      obtain ⟨value, rest, rfl, hvalue, hrest⟩ := ih h
      exact ⟨backslashByte :: d :: value, rest, rfl, .escape hvalue, hrest⟩
  | case9 c text hquote hback ih =>
      rw [sdScanLine_quoted hquote hback] at h
      obtain ⟨value, rest, rfl, hvalue, hrest⟩ := ih h
      exact ⟨c :: value, rest, rfl, .char hquote hback hvalue, hrest⟩

theorem quotesClosed_iff (text : Bytes) :
    QuotesClosed text ↔ sdScanLine false text ≠ none := by
  constructor
  · intro h
    rw [h.same_end]
    exact nofun
  · intro h
    obtain ⟨after, hafter⟩ := Option.ne_none_iff_exists'.mp h
    exact closesFrom_of_scan hafter

/-! ## Positions -/

/--
The loop of `hcs_strip_sd_from_line` with its position `p`.  Behind the inner
loop `p` is increased once more, also where no quote has stopped that loop.
-/
def sdScanLinePos : Bool → Nat → Bytes → Nat
  | false, p, [] => p
  | true, p, [] => p + 1
  | false, p, c :: text =>
      if c = quoteByte then sdScanLinePos true (p + 1) text
      else if c = bracketByte then p + 1
      else sdScanLinePos false (p + 1) text
  | true, p, c :: text =>
      if c = quoteByte then sdScanLinePos false (p + 1) text
      else if c = backslashByte then
        match text with
        | [] => p + 1 + 1
        | _ :: text => sdScanLinePos true (p + 2) text
      else sdScanLinePos true (p + 1) text

def sdScanElementPos : Bool → Nat → Bytes → Nat
  | _, p, [] => p
  | false, p, c :: text =>
      if c = quoteByte then sdScanElementPos true (p + 1) text
      else if c = bracketByte then p + 1
      else sdScanElementPos false (p + 1) text
  | true, p, c :: text =>
      if c = quoteByte then sdScanElementPos false (p + 1) text
      else if c = backslashByte then
        match text with
        | [] => p + 1
        | _ :: text => sdScanElementPos true (p + 2) text
      else sdScanElementPos true (p + 1) text

def LineEnds (scan : Option Bytes) (pos p : Nat) (text : Bytes) : Prop :=
  (∃ after, scan = some after ∧ after <:+ text ∧
    pos + after.length = p + text.length) ∨
  (scan = none ∧ pos = p + text.length + 1)

theorem LineEnds.cons {scan : Option Bytes} {pos p : Nat} {text : Bytes}
    (h : LineEnds scan pos (p + 1) text) (c : UInt8) :
    LineEnds scan pos p (c :: text) := by
  rcases h with ⟨after, hscan, hsuffix, hpos⟩ | ⟨hscan, hpos⟩
  · left
    refine ⟨after, hscan, hsuffix.trans (List.suffix_cons _ _), ?_⟩
    rw [List.length_cons]
    omega
  · right
    refine ⟨hscan, ?_⟩
    rw [List.length_cons]
    omega

theorem sdScanLinePos_ends (quoted : Bool) (p : Nat) (text : Bytes) :
    LineEnds (sdScanLine quoted text) (sdScanLinePos quoted p text) p text := by
  induction quoted, text using sdScanLine.induct generalizing p with
  | case1 => exact .inl ⟨[], rfl, List.suffix_refl _, rfl⟩
  | case2 => exact .inr ⟨rfl, rfl⟩
  | case3 text ih =>
      simp only [sdScanLine, sdScanLinePos, if_true]
      exact (ih (p + 1)).cons _
  | case4 text hne =>
      simp only [sdScanLine, sdScanLinePos, hne, if_true, if_false]
      exact .inl ⟨text, rfl, List.suffix_cons _ _,
        by rw [List.length_cons]; omega⟩
  | case5 c text hquote hbracket ih =>
      simp only [sdScanLine, sdScanLinePos, hquote, hbracket, if_false]
      exact (ih (p + 1)).cons _
  | case6 text ih =>
      have hstep : sdScanLinePos true p (quoteByte :: text) =
          sdScanLinePos false (p + 1) text := by
        cases text <;> simp [sdScanLinePos]
      rw [sdScanLine_quote, hstep]
      exact (ih (p + 1)).cons _
  | case7 hne =>
      right
      simp [sdScanLine, sdScanLinePos, hne]
  | case8 d text hne ih =>
      simp only [sdScanLine, sdScanLinePos, hne, if_true, if_false]
      exact ((ih (p + 2)).cons _).cons _
  | case9 c text hquote hback ih =>
      have hstep : sdScanLinePos true p (c :: text) =
          sdScanLinePos true (p + 1) text := by
        cases text <;> simp [sdScanLinePos, hquote, hback]
      rw [sdScanLine_quoted hquote hback, hstep]
      exact (ih (p + 1)).cons _

def ElementEnds (after : Bytes) (pos p : Nat) (text : Bytes) : Prop :=
  after <:+ text ∧ pos + after.length = p + text.length

theorem ElementEnds.cons {after : Bytes} {pos p : Nat} {text : Bytes}
    (h : ElementEnds after pos (p + 1) text) (c : UInt8) :
    ElementEnds after pos p (c :: text) := by
  refine ⟨h.1.trans (List.suffix_cons _ _), ?_⟩
  have hpos := h.2
  rw [List.length_cons]
  omega

theorem sdScanElementPos_ends (quoted : Bool) (p : Nat) (text : Bytes) :
    ElementEnds (sdScanElement quoted text) (sdScanElementPos quoted p text)
      p text := by
  induction quoted, text using sdScanElement.induct generalizing p with
  | case1 =>
      simp only [sdScanElement, sdScanElementPos]
      exact ⟨List.suffix_refl _, rfl⟩
  | case2 text ih =>
      simp only [sdScanElement, sdScanElementPos, if_true]
      exact (ih (p + 1)).cons _
  | case3 text hne =>
      simp only [sdScanElement, sdScanElementPos, hne, if_true, if_false]
      refine ⟨List.suffix_cons _ _, ?_⟩
      rw [List.length_cons]
      omega
  | case4 c text hquote hbracket ih =>
      simp only [sdScanElement, sdScanElementPos, hquote, hbracket, if_false]
      exact (ih (p + 1)).cons _
  | case5 text ih =>
      have hstep : sdScanElementPos true p (quoteByte :: text) =
          sdScanElementPos false (p + 1) text := by
        cases text <;> simp [sdScanElementPos]
      rw [sdScanElement_quote, hstep]
      exact (ih (p + 1)).cons _
  | case6 hne =>
      simp only [sdScanElement, sdScanElementPos, hne, if_true, if_false]
      exact ⟨List.nil_suffix, rfl⟩
  | case7 d text hne ih =>
      simp only [sdScanElement, sdScanElementPos, hne, if_true, if_false]
      exact ((ih (p + 2)).cons _).cons _
  | case8 c text hquote hback ih =>
      have hstep : sdScanElementPos true p (c :: text) =
          sdScanElementPos true (p + 1) text := by
        cases text <;> simp [sdScanElementPos, hquote, hback]
      rw [sdScanElement_quoted hquote hback, hstep]
      exact (ih (p + 1)).cons _

/-! ## The element of a line -/

def scanStart (before : Bytes) : Nat :=
  before.length + (sdPrefix hcsSdId).length

def lineEnd (before text : Bytes) : Nat :=
  sdScanLinePos false (scanStart before) text

def elementEnd (before text : Bytes) : Nat :=
  sdScanElementPos false (scanStart before) text

/--
A call that finds its element behind `before`: where the scan stops, that the
byte behind the line plays no part, that the length of the rest does not wrap
around, and what is cut out.
-/
structure StaysInside {ρ : Type} (parse : Bytes → Option ρ)
    (line before text : Bytes) (msgBufLen : Nat) : Prop where
  position : lineEnd before text ≤ line.length
  unread : ∀ next next', stripSdFromLine parse line next msgBufLen =
    stripSdFromLine parse line next' msgBufLen
  rest : before.length + (lineEnd before text - before.length) ≤ line.length
  sameEnd : lineEnd before text = elementEnd before text
  removed : ∀ next n msg out,
    stripSdFromLine parse line next msgBufLen = .ok (n, msg, out) →
    msg = before ++ line.drop (lineEnd before text)
  unclosed : (¬ ∃ body after, ClosesAt text body after) → ∀ next,
    stripSdFromLine parse line next msgBufLen = .error .rejected ∨
      lineEnd before text = line.length

def FirstElement (line before text : Bytes) : Prop :=
  findSub (sdPrefix hcsSdId) line = some (before, sdPrefix hcsSdId ++ text)

theorem FirstElement.line {line before text : Bytes}
    (h : FirstElement line before text) :
    line = before ++ (sdPrefix hcsSdId ++ text) := (findSub_some h).1

theorem FirstElement.length {line before text : Bytes}
    (h : FirstElement line before text) :
    line.length = scanStart before + text.length := by
  unfold scanStart
  rw [h.line, List.length_append, List.length_append, Nat.add_assoc]

theorem stripSdFromLine_of_scan {ρ : Type} (parse : Bytes → Option ρ)
    {line before text after : Bytes} (h : FirstElement line before text)
    (hscan : sdScanLine false text = some after) (msgBufLen : Nat) :
    ∃ result, (∀ next, stripSdFromLine parse line next msgBufLen = result) ∧
      ∀ n msg out, result = .ok (n, msg, out) → msg = before ++ after := by
  refine ⟨stripSdFromLine parse line 0 msgBufLen, fun next => ?_, ?_⟩
  · unfold stripSdFromLine
    rw [h]
    simp only [List.drop_left, hscan]
  · intro n msg out hok
    unfold stripSdFromLine at hok
    rw [h] at hok
    simp only [List.drop_left, hscan] at hok
    generalize parse _ = parsed at hok
    cases parsed with
    | none => cases hok
    | some value =>
        simp only at hok
        split_ifs at hok
        simp only [Except.ok.injEq, Prod.mk.injEq] at hok
        exact hok.2.1.symm

theorem FirstElement.drop {line before text : Bytes}
    (h : FirstElement line before text) {after : Bytes}
    (hsuffix : after <:+ text)
    (hend : lineEnd before text + after.length =
      scanStart before + text.length) :
    line.drop (lineEnd before text) = after := by
  obtain ⟨body, rfl⟩ := hsuffix
  have hfront : lineEnd before (body ++ after) =
      (before ++ (sdPrefix hcsSdId ++ body)).length := by
    unfold scanStart at hend
    rw [List.length_append] at hend
    simp only [List.length_append]
    omega
  have hline : line = before ++ (sdPrefix hcsSdId ++ body) ++ after := by
    rw [h.line]
    simp only [List.append_assoc]
  rw [hfront, hline, List.drop_left]

theorem staysInside_of_closed {ρ : Type} (parse : Bytes → Option ρ)
    {line before text : Bytes} (h : FirstElement line before text)
    (hclosed : QuotesClosed text) (msgBufLen : Nat) :
    StaysInside parse line before text msgBufLen := by
  have hscan := hclosed.same_end
  have hlength := h.length
  have hstart : before.length ≤ scanStart before := Nat.le_add_right _ _
  obtain ⟨result, hcall, hresult⟩ :=
    stripSdFromLine_of_scan parse h hscan msgBufLen
  obtain ⟨hsuffix, hend⟩ := sdScanElementPos_ends false (scanStart before) text
  change elementEnd before text + _ = _ at hend
  have hline : lineEnd before text + (sdScanElement false text).length =
      scanStart before + text.length := by
    rcases sdScanLinePos_ends false (scanStart before) text with
      ⟨after, hafter, -, hpos⟩ | ⟨hnone, -⟩
    · rw [hscan] at hafter
      cases hafter
      exact hpos
    · rw [hscan] at hnone
      cases hnone
  have hlen := hsuffix.length_le
  refine ⟨by omega, ?_, by omega, by omega, ?_, ?_⟩
  · intro next next'
    rw [hcall next, hcall next']
  · intro next n msg out hok
    rw [hcall next] at hok
    rw [h.drop hsuffix hline]
    exact hresult n msg out hok
  · intro hunclosed next
    right
    have hopen := hclosed.resolve_right hunclosed
    have helement := hopen.scanElement []
    rw [List.append_nil] at helement
    rw [helement, sdScanElement, List.length_nil] at hline
    omega

theorem staysInside_iff {ρ : Type} (parse : Bytes → Option ρ)
    {line before text : Bytes} (h : FirstElement line before text)
    (msgBufLen : Nat) :
    StaysInside parse line before text msgBufLen ↔ QuotesClosed text := by
  constructor
  · intro hinside
    rw [quotesClosed_iff]
    intro hnone
    rcases sdScanLinePos_ends false (scanStart before) text with
      ⟨after, hafter, -⟩ | ⟨-, hpos⟩
    · rw [hnone] at hafter
      cases hafter
    · have hposition := hinside.position
      unfold lineEnd at hposition
      rw [hpos, h.length] at hposition
      omega
  · intro hclosed
    exact staysInside_of_closed parse h hclosed msgBufLen

def ScanStaysInside {ρ : Type} (parse : Bytes → Option ρ) (line : Bytes)
    (msgBufLen : Nat) : Prop :=
  ∀ before text, FirstElement line before text →
    StaysInside parse line before text msgBufLen

/-- Every quote of the first element is closed in the line. -/
def LineQuotesClosed (line : Bytes) : Prop :=
  ∀ before text, FirstElement line before text → QuotesClosed text

/-- For every parser; one that accepts all stands for an `out` of `NULL`. -/
theorem scanStaysInside_iff {ρ : Type} (parse : Bytes → Option ρ)
    (line : Bytes) (msgBufLen : Nat) :
    ScanStaysInside parse line msgBufLen ↔ LineQuotesClosed line := by
  constructor
  · intro h before text hfirst
    exact (staysInside_iff parse hfirst msgBufLen).mp (h before text hfirst)
  · intro h before text hfirst
    exact (staysInside_iff parse hfirst msgBufLen).mpr (h before text hfirst)

def cutLine : Bytes := 97 :: (sdPrefix hcsSdId ++ ascii "q=\"1")

/-- With a record to fill, and with none, where the rest wraps around. -/
theorem scanStaysInside_fails :
    ¬ ScanStaysInside (hcsParseSd sampleOpenSSL) cutLine 8192 ∧
      ¬ ScanStaysInside (fun _ => some ()) cutLine 8192 ∧
      stripSdFromLine (fun _ => some ()) cutLine 0 8192 = .error .overrun := by
  have hfirst : FirstElement cutLine [97] (ascii "q=\"1") := by
    unfold FirstElement
    decide +kernel
  have hpast : ¬ lineEnd [97] (ascii "q=\"1") ≤ cutLine.length := by
    decide +kernel
  refine ⟨?_, ?_, by decide +kernel⟩
  · intro h
    exact hpast (h _ _ hfirst).position
  · intro h
    exact hpast (h _ _ hfirst).position

end MmHashChainSigs.Common
