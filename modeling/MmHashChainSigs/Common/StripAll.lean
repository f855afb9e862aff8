import MmHashChainSigs.Common.Scan
import MmHashChainSigs.Foundation.Skipping

/-!
# Removing the elements of one identifier

`hcs_strip_all_sd` reads a text and skips what starts with the prefix of an
element.  It looks for the prefix at every byte, inside of quotes as well.
-/

namespace MmHashChainSigs.Common

open MmHashChainSigs.Foundation

/-! ## The reader -/

def StartsElement (sdId text : Bytes) : Prop := sdPrefix sdId <+: text

instance (sdId text : Bytes) : Decidable (StartsElement sdId text) :=
  inferInstanceAs (Decidable (_ <+: _))

/--
An element of the identifier starts the text: up to the bracket that closes it,
or the whole text where no bracket does.
-/
def ElementAt (sdId text rest : Bytes) : Prop :=
  ∃ inside, text = sdPrefix sdId ++ inside ∧
    ((∃ body, ClosesAt inside body rest) ∨
      rest = [] ∧ ¬ ∃ body after, ClosesAt inside body after)

def LeavesOut (sdId : Bytes) : Bytes → Bytes → Prop :=
  Skipping.Leaves (ElementAt sdId)

theorem sdPrefix_length (sdId : Bytes) :
    (sdPrefix sdId).length = sdId.length + 2 := by
  simp [sdPrefix, ascii]

def behindElement (sdId text : Bytes) : Bytes :=
  sdScanElement false (text.drop (sdPrefix sdId).length)

theorem behindElement_suffix (sdId text : Bytes) :
    behindElement sdId text <:+ text :=
  (sdScanElementPos_ends false 0 _).1.trans (List.drop_suffix _ _)

theorem behindElement_length {sdId text : Bytes}
    (h : StartsElement sdId text) :
    (behindElement sdId text).length < text.length := by
  have hscan := (sdScanElementPos_ends false 0
    (text.drop (sdPrefix sdId).length)).1.length_le
  have hshorter := h.length_le
  rw [List.length_drop] at hscan
  rw [sdPrefix_length] at hscan hshorter
  unfold behindElement
  rw [sdPrefix_length]
  omega

theorem elementAt_iff {sdId text rest : Bytes} :
    ElementAt sdId text rest ↔
      StartsElement sdId text ∧ behindElement sdId text = rest := by
  constructor
  · rintro ⟨inside, rfl, hend⟩
    refine ⟨List.prefix_append _ _, ?_⟩
    rw [behindElement, List.drop_left]
    rcases hend with ⟨body, hcloses⟩ | ⟨rfl, hopen⟩
    · exact hcloses.scanElement
    · exact sdScanElement_of_open hopen
  · rintro ⟨⟨inside, rfl⟩, hbehind⟩
    rw [behindElement, List.drop_left] at hbehind
    refine ⟨inside, rfl, ?_⟩
    by_cases hcloses : ∃ body after, ClosesAt inside body after
    · obtain ⟨body, after, hcloses⟩ := hcloses
      rw [hcloses.scanElement] at hbehind
      rw [← hbehind]
      exact .inl ⟨body, hcloses⟩
    · rw [sdScanElement_of_open hcloses] at hbehind
      exact .inr ⟨hbehind.symm, hcloses⟩

theorem starts_elementAt {sdId text : Bytes} :
    Skipping.Starts (ElementAt sdId) text ↔ StartsElement sdId text := by
  simp only [Skipping.Starts, elementAt_iff, exists_and_left,
    exists_eq', and_true]

theorem isPart_elementAt (sdId : Bytes) :
    Skipping.IsPart (ElementAt sdId) where
  unique h h' :=
    (elementAt_iff.mp h).2.symm.trans (elementAt_iff.mp h').2
  suffix h := (elementAt_iff.mp h).2 ▸ behindElement_suffix _ _
  shorter h :=
    (elementAt_iff.mp h).2 ▸ behindElement_length (elementAt_iff.mp h).1

theorem exists_leavesOut (sdId src : Bytes) : ∃ out, LeavesOut sdId src out :=
  Skipping.exists_leaves (isPart_elementAt sdId) src

theorem LeavesOut.length_le {sdId src out : Bytes}
    (h : LeavesOut sdId src out) : out.length ≤ src.length :=
  (Skipping.Leaves.sublist (isPart_elementAt sdId) h).length_le

theorem stripAllFrom_leavesOut {sdId src out : Bytes}
    (h : LeavesOut sdId src out) {fuel : Nat} (hfuel : src.length ≤ fuel)
    (cap j : Nat) :
    stripAllFrom (sdPrefix sdId) cap fuel j src =
      if j + out.length < cap then
        some (out, decide (out.length < src.length))
      else none := by
  induction h generalizing fuel j with
  | nil hnot =>
      unfold stripAllFrom
      by_cases hcap : j < cap
      · rw [if_neg (by omega), if_pos (by simpa using hcap)]
        rfl
      · rw [if_pos (by omega), if_neg (by simpa using hcap)]
  | @take c text out hnot hrest ih =>
      rw [List.length_cons] at hfuel
      obtain ⟨fuel, rfl⟩ := Nat.exists_eq_add_of_lt (Nat.lt_of_lt_of_le
        (Nat.succ_pos _) hfuel)
      rw [Nat.zero_add] at hfuel ⊢
      have hnext := ih (show text.length ≤ fuel by omega) (j + 1)
      unfold stripAllFrom
      rw [if_neg (show ¬ sdPrefix sdId <+: c :: text from
        fun hstarts => hnot (starts_elementAt.mpr hstarts)),
        hnext, List.length_cons, List.length_cons]
      by_cases hcap : j + (out.length + 1) < cap
      · rw [if_neg (by omega), if_pos (by omega), if_pos hcap]
        simp
      · rw [if_neg hcap, if_neg (show ¬ j + 1 + out.length < cap by omega)]
        simp
  | @skip text rest out hpart hrest ih =>
      obtain ⟨hstarts, rfl⟩ := elementAt_iff.mp hpart
      have hless := behindElement_length hstarts
      have hle := LeavesOut.length_le hrest
      cases text with
      | nil =>
          rw [List.length_nil] at hless
          omega
      | cons c text =>
          rw [List.length_cons] at hfuel
          obtain ⟨fuel, rfl⟩ := Nat.exists_eq_add_of_lt (Nat.lt_of_lt_of_le
            (Nat.succ_pos _) hfuel)
          rw [Nat.zero_add] at hfuel ⊢
          rw [List.length_cons] at hless
          have hnext := ih (show (behindElement sdId (c :: text)).length ≤
            fuel by omega) j
          unfold stripAllFrom
          rw [if_pos (show sdPrefix sdId <+: c :: text from hstarts)]
          change (stripAllFrom _ cap fuel j
            (behindElement sdId (c :: text))).map _ = _
          rw [hnext]
          by_cases hcap : j + out.length < cap
          · rw [if_pos hcap, if_pos hcap, Option.map_some,
              decide_eq_true (show out.length < (c :: text).length by
                rw [List.length_cons]; omega)]
          · rw [if_neg hcap, if_neg hcap, Option.map_none]

theorem hcsStripAllSd_leavesOut {sdId src out : Bytes}
    (hid : (sdPrefix sdId).length < 80) (h : LeavesOut sdId src out)
    (cap : Nat) :
    hcsStripAllSd src sdId cap =
      if out.length < cap then some (out, decide (out.length < src.length))
      else none := by
  unfold hcsStripAllSd
  rw [if_neg (Nat.not_le.mpr hid),
    stripAllFrom_leavesOut h (Nat.le_refl _) cap 0, Nat.zero_add]

/-! ## Well-formed structured data -/

def isNameByte (c : UInt8) : Bool :=
  33 ≤ c && c ≤ 126 && c ≠ 61 && c ≠ bracketByte && c ≠ quoteByte

structure SdName where
  bytes : Bytes
  ne_nil : bytes ≠ []
  short : bytes.length ≤ 32
  plain : ∀ c ∈ bytes, isNameByte c = true
  deriving DecidableEq

inductive Escaped : Bytes → Prop where
  | nil : Escaped []
  | char {c : UInt8} {text : Bytes} (hc : mustEscape c = false)
      (h : Escaped text) : Escaped (c :: text)
  | escape {c : UInt8} {text : Bytes} (hc : mustEscape c = true)
      (h : Escaped text) : Escaped (backslashByte :: c :: text)

structure SdParam where
  name : SdName
  value : Bytes
  escaped : Escaped value

structure SdElement where
  id : SdName
  params : List SdParam

def SdParam.text (param : SdParam) : Bytes :=
  32 :: (param.name.bytes ++ 61 :: quoteByte :: (param.value ++ [quoteByte]))

def SdElement.text (element : SdElement) : Bytes :=
  91 :: (element.id.bytes ++
    (element.params.flatMap SdParam.text ++ [bracketByte]))

def sdSection (elements : List SdElement) : Bytes :=
  elements.flatMap SdElement.text

def others (id : SdName) (elements : List SdElement) : List SdElement :=
  elements.filter fun element => element.id ≠ id

theorem SdName.ne_of_mem (name : SdName) {c : UInt8} (h : c ∈ name.bytes) :
    c ≠ 32 ∧ c ≠ 61 ∧ c ≠ bracketByte ∧ c ≠ quoteByte := by
  have hplain := name.plain c h
  simp only [isNameByte, Bool.and_eq_true, decide_eq_true_eq] at hplain
  obtain ⟨⟨⟨⟨hlow, -⟩, heq⟩, hbracket⟩, hquote⟩ := hplain
  refine ⟨?_, heq, hbracket, hquote⟩
  rintro rfl
  exact absurd hlow (by decide)

theorem SdName.prefix_length (id : SdName) :
    (sdPrefix id.bytes).length < 80 := by
  rw [sdPrefix_length]
  have := id.short
  omega

theorem Escaped.quoted {value : Bytes} (h : Escaped value) : Quoted value := by
  induction h with
  | nil => exact .nil
  | char hc _ ih =>
      simp only [mustEscape, Bool.or_eq_false_iff, decide_eq_false_iff_not]
        at hc
      exact .char hc.1.2 hc.1.1 ih
  | escape _ _ ih => exact .escape ih

theorem SdParam.unquoted (param : SdParam) : Unquoted param.text := by
  apply Unquoted.char (by decide) (by decide)
  apply Unquoted.append
  · apply unquoted_of_ne
    intro c hc
    have hplain := param.name.ne_of_mem hc
    exact ⟨hplain.2.2.2, hplain.2.2.1⟩
  · apply Unquoted.char (by decide) (by decide)
    exact .quoted param.escaped.quoted .nil

theorem sdParams_unquoted (params : List SdParam) :
    Unquoted (params.flatMap SdParam.text) := by
  induction params with
  | nil => exact .nil
  | cons param params ih =>
      rw [List.flatMap_cons]
      exact param.unquoted.append ih

theorem behindElement_text {element : SdElement} (hne : element.params ≠ [])
    (rest : Bytes) :
    StartsElement element.id.bytes (element.text ++ rest) ∧
      behindElement element.id.bytes (element.text ++ rest) = rest := by
  obtain ⟨param, params, hparams⟩ := List.exists_cons_of_ne_nil hne
  have htext : element.text ++ rest = sdPrefix element.id.bytes ++
      (param.text.tail ++ params.flatMap SdParam.text ++
        bracketByte :: rest) := by
    unfold SdElement.text
    rw [hparams, List.flatMap_cons]
    simp [sdPrefix, ascii, SdParam.text]
  have hbody : Unquoted (param.text.tail ++ params.flatMap SdParam.text) := by
    apply Unquoted.append _ (sdParams_unquoted params)
    cases param.unquoted with
    | char _ _ h => exact h
  refine ⟨?_, ?_⟩
  · rw [htext]
    exact List.prefix_append _ _
  · unfold behindElement
    rw [htext, List.drop_left]
    exact ClosesAt.scanElement ⟨rfl, hbody⟩

theorem not_starts_of_no_params {id : SdName} (rest : Bytes) :
    ¬ StartsElement id.bytes (91 :: (id.bytes ++ bracketByte :: rest)) := by
  intro h
  have hblank := (List.prefix_append_right_inj _).mp
    (List.cons_prefix_cons.mp h).2
  exact absurd (List.cons_prefix_cons.mp hblank).1 (by decide)

theorem bracket_notMem_sdPrefix (id : SdName) :
    bracketByte ∉ sdPrefix id.bytes := by
  intro h
  simp only [sdPrefix, List.mem_append] at h
  rcases h with (hfirst | hname) | hlast
  · exact absurd hfirst (by decide)
  · exact (id.ne_of_mem hname).2.2.1 rfl
  · exact absurd hlast (by decide)

/-- A prefix that starts in an element ends in it. -/
theorem not_starts_within {id : SdName} {element : SdElement}
    (h : ¬ sdPrefix id.bytes <:+: element.text) {first rest : Bytes}
    (hsplit : element.text = first ++ rest) (hne : rest ≠ []) (more : Bytes) :
    ¬ StartsElement id.bytes (rest ++ more) := by
  intro hstarts
  by_cases hlen : (sdPrefix id.bytes).length ≤ rest.length
  · apply h
    have hbegins := List.prefix_of_prefix_length_le hstarts
      (List.prefix_append _ _) hlen
    rw [hsplit]
    exact hbegins.isInfix.trans (List.suffix_append _ _).isInfix
  · have hbegins : rest <+: sdPrefix id.bytes :=
      List.prefix_of_prefix_length_le (List.prefix_append _ _) hstarts
        (by omega)
    have hlast : bracketByte ∈ rest := by
      have hend : element.text.getLast? = some bracketByte := by
        unfold SdElement.text
        rw [← List.append_assoc, ← List.cons_append, List.getLast?_concat]
      rw [hsplit, List.getLast?_append_of_ne_nil _ hne] at hend
      exact List.mem_of_getLast? hend
    exact bracket_notMem_sdPrefix id (hbegins.subset hlast)

/-! ## Where the copied bytes come from -/

/-- A byte, and whether its element has another identifier. -/
abbrev Origin := UInt8 × Bool

def SdElement.origins (element : SdElement) (id : SdName) : List Origin :=
  element.text.map fun c => (c, decide (element.id ≠ id))

def sectionOrigins (id : SdName) (elements : List SdElement) : List Origin :=
  elements.flatMap fun element => element.origins id

def OriginAt (sdId : Bytes) (text rest : List Origin) : Prop :=
  rest <:+ text ∧ ElementAt sdId (text.map Prod.fst) (rest.map Prod.fst)

def LeavesOrigins (sdId : Bytes) : List Origin → List Origin → Prop :=
  Skipping.Leaves (OriginAt sdId)

theorem starts_originAt {sdId : Bytes} {text : List Origin} :
    Skipping.Starts (OriginAt sdId) text ↔
      StartsElement sdId (text.map Prod.fst) := by
  constructor
  · rintro ⟨rest, -, hpart⟩
    exact (elementAt_iff.mp hpart).1
  · intro hstarts
    obtain ⟨front, hfront⟩ := behindElement_suffix sdId (text.map Prod.fst)
    have hdrop : (text.drop front.length).map Prod.fst =
        behindElement sdId (text.map Prod.fst) := by
      rw [List.map_drop, ← hfront, List.drop_left, hfront]
    exact ⟨text.drop front.length, List.drop_suffix _ _,
      elementAt_iff.mpr ⟨hstarts, hdrop.symm⟩⟩

theorem isPart_originAt (sdId : Bytes) :
    Skipping.IsPart (OriginAt sdId) where
  unique := by
    intro text rest rest' h h'
    have hbytes := (isPart_elementAt sdId).unique h.2 h'.2
    have hlen := congrArg List.length hbytes
    rw [List.length_map, List.length_map] at hlen
    exact (List.suffix_of_suffix_length_le h.1 h'.1 hlen.le).eq_of_length hlen
  suffix h := h.1
  shorter := by
    intro text rest h
    have hless := (isPart_elementAt sdId).shorter h.2
    rwa [List.length_map, List.length_map] at hless

theorem LeavesOrigins.bytes {sdId : Bytes} {text out : List Origin}
    (h : LeavesOrigins sdId text out) :
    LeavesOut sdId (text.map Prod.fst) (out.map Prod.fst) :=
  Skipping.Leaves.map (fun _ _ hpart => hpart.2)
    (fun _ hstarts => starts_originAt.mpr (starts_elementAt.mp hstarts)) h

/--
The result is the other elements, the flag tells whether there were any
elements of the identifier, and every byte copied belongs to another element.
-/
structure RemovesExactly (elements : List SdElement) (id : SdName) :
    Prop where
  text : ∀ cap, (sdSection (others id elements)).length < cap →
    ∃ removed, hcsStripAllSd (sdSection elements) id.bytes cap =
        some (sdSection (others id elements), removed) ∧
      (removed = true ↔ ∃ element ∈ elements, element.id = id)
  origins : LeavesOrigins id.bytes (sectionOrigins id elements)
    ((sectionOrigins id elements).filter Prod.snd)

/--
Elements of the identifier have parameters, and the other elements do not
contain the prefix.
-/
def Separable (id : SdName) (element : SdElement) : Prop :=
  (element.id = id → element.params ≠ []) ∧
    (element.id ≠ id → ¬ sdPrefix id.bytes <:+: element.text)

section Origins

variable {id : SdName} {element : SdElement}

theorem origins_bytes (element : SdElement) :
    (element.origins id).map Prod.fst = element.text := by
  unfold SdElement.origins
  rw [List.map_map]
  exact List.map_id _

theorem sectionOrigins_bytes (elements : List SdElement) :
    (sectionOrigins id elements).map Prod.fst = sdSection elements := by
  unfold sectionOrigins sdSection
  rw [List.map_flatMap]
  simp only [origins_bytes]

theorem filter_origins_own (h : element.id = id) :
    (element.origins id).filter Prod.snd = [] := by
  unfold SdElement.origins
  rw [List.filter_eq_nil_iff]
  intro origin horigin
  obtain ⟨c, -, rfl⟩ := List.mem_map.mp horigin
  simp [h]

theorem origins_other (h : element.id ≠ id) :
    ∀ origin ∈ element.origins id, origin.2 = true := by
  intro origin horigin
  unfold SdElement.origins at horigin
  obtain ⟨c, -, rfl⟩ := List.mem_map.mp horigin
  simp [h]

theorem filter_origins_other (h : element.id ≠ id) :
    (element.origins id).filter Prod.snd = element.origins id := by
  rw [List.filter_eq_self]
  exact origins_other h

theorem filter_sectionOrigins (elements : List SdElement) :
    ((sectionOrigins id elements).filter Prod.snd).map Prod.fst =
      sdSection (others id elements) := by
  induction elements with
  | nil => rfl
  | cons element elements ih =>
      unfold sectionOrigins at ih ⊢
      rw [List.flatMap_cons, List.filter_append, List.map_append, ih]
      unfold others sdSection
      by_cases h : element.id = id
      · rw [filter_origins_own h, List.filter_cons_of_neg (by simp [h])]
        rfl
      · rw [filter_origins_other h, origins_bytes,
          List.filter_cons_of_pos (by simp [h]), List.flatMap_cons]

theorem leavesOrigins_own (h : element.id = id) (hne : element.params ≠ [])
    (text out : List Origin) :
    LeavesOrigins id.bytes (element.origins id ++ text) out ↔
      LeavesOrigins id.bytes text out := by
  have hpart := elementAt_iff.mpr (behindElement_text hne (text.map Prod.fst))
  rw [h] at hpart
  apply Skipping.leaves_skip_iff (isPart_originAt _)
  refine ⟨List.suffix_append _ _, ?_⟩
  rwa [List.map_append, origins_bytes]

theorem leavesOrigins_other (h : ¬ sdPrefix id.bytes <:+: element.text)
    (text out : List Origin) :
    LeavesOrigins id.bytes (element.origins id ++ text) out ↔
      ∃ more, out = element.origins id ++ more ∧
        LeavesOrigins id.bytes text more := by
  apply Skipping.leaves_append_iff
  intro first rest hsplit hne hstarts
  rw [starts_originAt, List.map_append] at hstarts
  have hbytes := congrArg (List.map Prod.fst) hsplit
  rw [origins_bytes, List.map_append] at hbytes
  exact not_starts_within h hbytes (by simpa using hne) _ hstarts

theorem not_leavesOrigins_own (h : element.id = id) (hnil : element.params = [])
    (text : List Origin) :
    ¬ LeavesOrigins id.bytes (element.origins id ++ text)
      ((element.origins id ++ text).filter Prod.snd) := by
  have htext : element.text = 91 :: (id.bytes ++ [bracketByte]) := by
    unfold SdElement.text
    rw [hnil, h]
    rfl
  have horigins : element.origins id =
      (91, false) :: (id.bytes ++ [bracketByte]).map fun c => (c, false) := by
    unfold SdElement.origins
    rw [htext]
    simp [h]
  intro hleaves
  have hkept : ∀ origin ∈ (element.origins id ++ text).filter Prod.snd,
      origin.2 = true := fun origin hmem => (List.mem_filter.mp hmem).2
  generalize (element.origins id ++ text).filter Prod.snd = out
    at hleaves hkept
  rw [horigins, List.cons_append] at hleaves
  cases hleaves with
  | take _ _ => exact absurd (hkept _ List.mem_cons_self) (by decide)
  | skip hpart _ =>
      have hstarts := starts_originAt.mp ⟨_, hpart⟩
      apply not_starts_of_no_params (text.map Prod.fst)
      rw [← List.cons_append, ← horigins, List.map_append, origins_bytes,
        htext] at hstarts
      simpa using hstarts

theorem not_leavesOrigins_other (h : element.id ≠ id)
    (hbegins : sdPrefix id.bytes <:+: element.text) (text : List Origin) :
    ¬ LeavesOrigins id.bytes (element.origins id ++ text)
      ((element.origins id ++ text).filter Prod.snd) := by
  intro hleaves
  obtain ⟨before, after, hsplit⟩ := hbegins
  have hparts : element.origins id =
      (element.origins id).take before.length ++
        (element.origins id).drop before.length :=
    (List.take_append_drop _ _).symm
  have hrest : ((element.origins id).drop before.length).map Prod.fst =
      sdPrefix id.bytes ++ after := by
    rw [List.map_drop, origins_bytes, ← hsplit, List.append_assoc,
      List.drop_left]
  have hless := Skipping.Leaves.loses (isPart_originAt id.bytes)
    (origins_other h) hleaves hparts (by
      intro hnil
      rw [hnil] at hrest
      exact absurd hrest.symm (by simp [sdPrefix, ascii]))
    (by
      rw [starts_originAt, List.map_append, hrest, List.append_assoc]
      exact List.prefix_append _ _)
  have hall : (element.origins id ++ text).countP Prod.snd =
      (element.origins id).length + text.countP Prod.snd := by
    rw [List.countP_append, List.countP_eq_length.mpr (origins_other h)]
  rw [List.countP_filter] at hless
  simp only [Bool.and_self] at hless
  exact absurd (hless.trans_eq hall.symm) (Nat.lt_irrefl _)

theorem leavesOrigins_iff (elements : List SdElement) :
    LeavesOrigins id.bytes (sectionOrigins id elements)
        ((sectionOrigins id elements).filter Prod.snd) ↔
      ∀ element ∈ elements, Separable id element := by
  induction elements with
  | nil =>
      refine iff_of_true (.nil ?_) (by simp)
      intro hstarts
      exact absurd (List.prefix_nil.mp (starts_originAt.mp hstarts))
        (by simp [sdPrefix, ascii])
  | cons element elements ih =>
      rw [List.forall_mem_cons, ← ih]
      unfold sectionOrigins
      rw [List.flatMap_cons]
      by_cases h : element.id = id
      · by_cases hnil : element.params = []
        · exact iff_of_false (not_leavesOrigins_own h hnil _)
            fun hboth => hboth.1.1 h hnil
        · rw [List.filter_append, filter_origins_own h, List.nil_append,
            leavesOrigins_own h hnil]
          exact (and_iff_right ⟨fun _ => hnil, fun hne => absurd h hne⟩).symm
      · by_cases hbegins : sdPrefix id.bytes <:+: element.text
        · exact iff_of_false (not_leavesOrigins_other h hbegins _)
            fun hboth => hboth.1.2 h hbegins
        · rw [List.filter_append, filter_origins_other h,
            leavesOrigins_other hbegins]
          simp only [List.append_cancel_left_eq, exists_eq_left']
          exact (and_iff_right ⟨fun heq => absurd heq h,
            fun _ => hbegins⟩).symm

theorem others_length (elements : List SdElement) :
    (sdSection (others id elements)).length < (sdSection elements).length ↔
      ∃ element ∈ elements, element.id = id := by
  have hle : ∀ elements, (sdSection (others id elements)).length ≤
      (sdSection elements).length := by
    intro elements
    exact (List.Sublist.flatMap List.filter_sublist _).length_le
  induction elements with
  | nil => simp [sdSection, others]
  | cons element elements ih =>
      have hrest := hle elements
      simp only [sdSection, others, List.flatMap_cons, List.length_append,
        List.exists_mem_cons_iff] at ih hrest ⊢
      by_cases h : element.id = id
      · have hpos : 0 < element.text.length := Nat.succ_pos _
        rw [List.filter_cons_of_neg (by simp [h])]
        exact iff_of_true (by omega) (.inl h)
      · rw [List.filter_cons_of_pos (by simp [h]), List.flatMap_cons,
          List.length_append]
        apply Iff.trans _ (ih.trans (or_iff_right h).symm)
        constructor
        · intro hless
          omega
        · intro hless
          omega

end Origins

theorem removesExactly_iff (elements : List SdElement) (id : SdName) :
    RemovesExactly elements id ↔
      ∀ element ∈ elements, Separable id element := by
  rw [← leavesOrigins_iff]
  constructor
  · exact fun h => h.origins
  · intro h
    refine ⟨fun cap hcap => ?_, h⟩
    have hleaves := h.bytes
    rw [sectionOrigins_bytes, filter_sectionOrigins] at hleaves
    rw [hcsStripAllSd_leavesOut id.prefix_length hleaves, if_pos hcap]
    refine ⟨_, rfl, ?_⟩
    rw [decide_eq_true_iff]
    exact others_length elements

def chainName : SdName where
  bytes := hcsSdId
  ne_nil := by decide +kernel
  short := by decide +kernel
  plain := by decide +kernel

def clientName : SdName where
  bytes := ascii "x"
  ne_nil := by decide +kernel
  short := by decide +kernel
  plain := by decide +kernel

theorem escaped_of_plain {value : Bytes}
    (h : ∀ c ∈ value, mustEscape c = false) : Escaped value := by
  induction value with
  | nil => exact .nil
  | cons c value ih =>
      rw [List.forall_mem_cons] at h
      exact .char h.1 (ih h.2)

/-- A client's element whose value looks like the start of a chain element. -/
def shadowElement : SdElement where
  id := clientName
  params := [⟨clientName, sdPrefix hcsSdId,
    escaped_of_plain (by decide +kernel)⟩]

def bareElement : SdElement where
  id := chainName
  params := []

/-- One client element is cut, and one with the identifier stays. -/
theorem removesExactly_fails :
    ¬ RemovesExactly [shadowElement] chainName ∧
      ¬ RemovesExactly [bareElement] chainName ∧
      hcsStripAllSd (sdSection [shadowElement]) hcsSdId 200 =
        some (ascii "[x x=\"", true) ∧
      hcsStripAllSd (sdSection [bareElement]) hcsSdId 200 =
        some (sdSection [bareElement], false) := by
  refine ⟨?_, ?_, by decide +kernel, by decide +kernel⟩
  · intro h
    obtain ⟨removed, hresult, -⟩ := h.text 200 (by decide +kernel)
    have hcut : hcsStripAllSd (sdSection [shadowElement]) chainName.bytes 200 =
        some (ascii "[x x=\"", true) := by decide +kernel
    rw [hcut, Option.some.injEq, Prod.mk.injEq] at hresult
    exact absurd hresult.1 (by decide +kernel)
  · intro h
    obtain ⟨removed, hresult, -⟩ := h.text 200 (by decide +kernel)
    have hkept : hcsStripAllSd (sdSection [bareElement]) chainName.bytes 200 =
        some (sdSection [bareElement], false) := by decide +kernel
    rw [hkept, Option.some.injEq, Prod.mk.injEq] at hresult
    exact absurd hresult.1 (by decide +kernel)

end MmHashChainSigs.Common
