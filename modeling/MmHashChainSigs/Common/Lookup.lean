import MmHashChainSigs.Common.RoundTrip
import MmHashChainSigs.Common.StripAll

/-!
# Looking up a parameter

`sd_get_param` compares the key at the start of the text and behind every
blank, also behind a blank inside of a value.  The byte in front of a quote is
never a backslash there, so such a match needs a value that ends in the key.
-/

namespace MmHashChainSigs.Common

open MmHashChainSigs.Foundation

/-! ## What stands between the parameters -/

theorem sdParamValue_equals (rest : Bytes) : ∀ text : Bytes, quoteByte ∉ text →
    sdParamValue (text ++ 61 :: quoteByte :: rest) = some (text ++ [61], rest)
  | [], _ => by
      rw [List.nil_append, sdParamValue_cons (by decide) (by decide),
        sdParamValue_quote]
      rfl
  | [c], h => by
      rw [List.mem_singleton] at h
      by_cases hback : c = backslashByte
      · have ih := sdParamValue_quote rest
        rw [hback]
        simp only [List.cons_append, List.nil_append, sdParamValue, ih]
        rfl
      · rw [List.singleton_append, sdParamValue_cons (Ne.symm h) hback,
          sdParamValue_cons (by decide) (by decide), sdParamValue_quote]
        rfl
  | c :: d :: text, h => by
      simp only [List.mem_cons, not_or] at h
      by_cases hback : c = backslashByte
      · have ih := sdParamValue_equals rest text h.2.2
        rw [hback]
        simp only [List.cons_append, sdParamValue, ih]
        rfl
      · have ih := sdParamValue_equals rest (d :: text)
          (by simpa using h.2)
        rw [List.cons_append, sdParamValue_cons (Ne.symm h.1) hback, ih]
        rfl

def IsKey (key : Bytes) : Prop := PlainName key ∧ key ≠ []

theorem IsKey.ne_of_head {key : Bytes} (h : IsKey key) {c : UInt8}
    (hc : c = quoteByte ∨ c = backslashByte) (rest tail : Bytes) :
    ¬ key ++ rest <+: c :: tail := by
  obtain ⟨d, key, rfl⟩ := List.exists_cons_of_ne_nil h.2
  intro hbegins
  obtain ⟨hquote, hback, -, -⟩ := h.1.1 d (by simp)
  rw [(List.cons_prefix_cons.mp hbegins).1] at hquote hback
  rcases hc with hc | hc
  · exact hquote hc
  · exact hback hc

/-! ## A key inside of a value -/

theorem prefix_value_iff {value : Bytes} (hvalue : Escaped value)
    {text : Bytes} (htext : ∀ c ∈ text, c ≠ quoteByte ∧ c ≠ backslashByte)
    (tail : Bytes) :
    text ++ [quoteByte] <+: value ++ quoteByte :: tail ↔ value = text := by
  induction text generalizing value with
  | nil =>
      cases hvalue with
      | nil => simp
      | char hc _ =>
          refine iff_of_false ?_ nofun
          intro h
          rw [← (List.cons_prefix_cons.mp h).1] at hc
          exact absurd hc (by decide)
      | escape hc _ =>
          refine iff_of_false ?_ nofun
          intro h
          exact absurd (List.cons_prefix_cons.mp h).1 (by decide)
  | cons d text ih =>
      rw [List.forall_mem_cons] at htext
      cases hvalue with
      | nil =>
          refine iff_of_false ?_ nofun
          intro h
          exact htext.1.1 (List.cons_prefix_cons.mp h).1
      | char hc hrest =>
          rw [List.cons_append, List.cons_append, List.cons_prefix_cons,
            ih hrest htext.2, List.cons.injEq, eq_comm (a := d)]
      | escape hc hrest =>
          constructor
          · intro h
            exact absurd (List.cons_prefix_cons.mp h).1 htext.1.2
          · intro h
            exact absurd (List.cons.inj h).1.symm htext.1.2

def EndsInKey (key value : Bytes) : Prop := 32 :: (key ++ [61]) <:+ value

instance (key value : Bytes) : Decidable (EndsInKey key value) :=
  inferInstanceAs (Decidable (_ <:+ _))

theorem endsInKey_cons {key value : Bytes} {c : UInt8} :
    EndsInKey key (c :: value) ↔
      (c = 32 ∧ value = key ++ [61]) ∨ EndsInKey key value := by
  unfold EndsInKey
  rw [List.suffix_cons_iff, List.cons.injEq, eq_comm (a := (32 : UInt8)),
    eq_comm (a := key ++ [61])]

theorem IsKey.prefix_iff {key value : Bytes} (hkey : IsKey key)
    (hvalue : Escaped value) (tail : Bytes) :
    key ++ ascii "=\"" <+: value ++ quoteByte :: tail ↔
      value = key ++ [61] := by
  have htext : key ++ ascii "=\"" = (key ++ [61]) ++ [quoteByte] := by
    rw [List.append_assoc]
    rfl
  rw [htext, prefix_value_iff hvalue]
  intro c hc
  rw [List.mem_append, List.mem_singleton] at hc
  rcases hc with hc | rfl
  · obtain ⟨hquote, hback, -, -⟩ := hkey.1.1 c hc
    exact ⟨hquote, hback⟩
  · decide

theorem sdGetParamFrom_false (key : Bytes) (c : UInt8) (rest : Bytes) :
    sdGetParamFrom key false (c :: rest) =
      sdGetParamFrom key (c = 32) rest := by
  simp [sdGetParamFrom]

/--
The search through a value.  It succeeds at a value that is the key itself, if
the value starts at a boundary, and at one that ends in the key.
-/
theorem sdGetParamFrom_value {key value : Bytes} (hkey : IsKey key)
    (hvalue : Escaped value) (boundary : Bool) (tail : Bytes) :
    sdGetParamFrom key boundary (value ++ quoteByte :: tail) =
      if (boundary = true ∧ value = key ++ [61]) ∨ EndsInKey key value then
        (sdParamValue tail).map Prod.fst
      else sdGetParamFrom key false tail := by
  induction hvalue generalizing boundary with
  | nil =>
      have hno : ¬ (boundary = true ∧
          key ++ ascii "=\"" <+: quoteByte :: tail) :=
        fun h => hkey.ne_of_head (.inl rfl) _ _ h.2
      rw [List.nil_append, sdGetParamFrom, if_neg hno, if_neg (by
        simp [EndsInKey])]
      rfl
  | @char c value hc hrest ih =>
      have hbegins := hkey.prefix_iff (.char hc hrest) tail
      rw [List.cons_append] at hbegins ⊢
      rw [sdGetParamFrom]
      by_cases hmatch : boundary = true ∧ c :: value = key ++ [61]
      · have hdrop : (c :: (value ++ quoteByte :: tail)).drop
            (key.length + 2) = tail := by
          rw [← List.cons_append, hmatch.2,
            List.append_cons (key ++ [61]) quoteByte tail,
            List.drop_left' (by simp)]
        rw [if_pos ⟨hmatch.1, hbegins.mpr hmatch.2⟩, hdrop,
          if_pos (.inl hmatch)]
      · rw [if_neg (fun h => hmatch ⟨h.1, hbegins.mp h.2⟩), ih]
        simp only [decide_eq_true_eq, endsInKey_cons, hmatch, false_or]
  | @escape c value hc hrest ih =>
      have hblank : c ≠ 32 := by
        rintro rfl
        exact absurd hc (by decide)
      have hno : ¬ (boundary = true ∧ key ++ ascii "=\"" <+:
          backslashByte :: c :: (value ++ quoteByte :: tail)) :=
        fun h => hkey.ne_of_head (.inr rfl) _ _ h.2
      have hends : ((boundary = true ∧
          backslashByte :: c :: value = key ++ [61]) ∨
          EndsInKey key (backslashByte :: c :: value)) ↔
          EndsInKey key value := by
        have hwhole : backslashByte :: c :: value ≠ key ++ [61] := by
          intro h
          obtain ⟨d, key, rfl⟩ := List.exists_cons_of_ne_nil hkey.2
          exact (hkey.1.1 d (by simp)).2.1 (List.cons.inj h).1.symm
        have hback : backslashByte ≠ 32 := by decide
        rw [endsInKey_cons, endsInKey_cons]
        simp [hwhole, hblank, hback]
      rw [List.cons_append, List.cons_append, sdGetParamFrom, if_neg hno,
        show (decide (backslashByte = 32)) = false from rfl,
        sdGetParamFrom_false, decide_eq_false hblank, ih]
      simp only [Bool.false_eq_true, false_and, false_or, hends]

/-! ## A list of parameters -/

def valueOf (key : Bytes) (params : List SdParam) : Option Bytes :=
  (params.find? (·.name.bytes = key)).map SdParam.value

def lookupResult (key : Bytes) : List SdParam → Option Bytes
  | [] => none
  | param :: params =>
      if param.name.bytes = key then some param.value
      else if EndsInKey key param.value then
        params.head?.map fun next => 32 :: (next.name.bytes ++ [61])
      else lookupResult key params

/--
The first parameter with another name whose value ends in the key, if one is
reached, is the last of all, or the value looked for is what the search then
takes for one: the name of the next parameter between a blank and `=`.
-/
def LookupSafe (key : Bytes) : List SdParam → Prop
  | [] => True
  | param :: params =>
      param.name.bytes = key ∨
        if EndsInKey key param.value then
          ∀ next ∈ params.head?,
            valueOf key params = some (32 :: (next.name.bytes ++ [61]))
        else LookupSafe key params

theorem lookupSafe_of_no_blank (key : Bytes) {params : List SdParam}
    (h : ∀ param ∈ params, 32 ∉ param.value) : LookupSafe key params := by
  induction params with
  | nil => trivial
  | cons param params ih =>
      rw [List.forall_mem_cons] at h
      right
      rw [if_neg fun hends => h.1 (hends.subset List.mem_cons_self)]
      exact ih h.2

theorem valueOf_cons_of_ne {key : Bytes} {param : SdParam}
    (h : param.name.bytes ≠ key) (params : List SdParam) :
    valueOf key (param :: params) = valueOf key params := by
  unfold valueOf
  rw [List.find?_cons_of_neg (by simpa using h)]

theorem lookupResult_eq_iff (key : Bytes) (params : List SdParam) :
    lookupResult key params = valueOf key params ↔ LookupSafe key params := by
  induction params with
  | nil => exact iff_of_true rfl trivial
  | cons param params ih =>
      unfold lookupResult LookupSafe
      by_cases hname : param.name.bytes = key
      · rw [if_pos hname]
        refine iff_of_true ?_ (.inl hname)
        unfold valueOf
        rw [List.find?_cons_of_pos (by simpa using hname)]
        rfl
      · rw [if_neg hname, valueOf_cons_of_ne hname]
        simp only [hname, false_or]
        by_cases hends : EndsInKey key param.value
        · rw [if_pos hends, if_pos hends]
          cases params with
          | nil => exact iff_of_true rfl nofun
          | cons next params => simp [eq_comm]
        · rw [if_neg hends, if_neg hends]
          exact ih

theorem SdParam.text_append (param : SdParam) (rest : Bytes) :
    param.text ++ rest = 32 :: (param.name.bytes ++
      61 :: quoteByte :: (param.value ++ quoteByte :: rest)) := by
  simp [SdParam.text]

theorem sdParamValue_next (params : List SdParam) :
    (sdParamValue (params.flatMap SdParam.text)).map Prod.fst =
      params.head?.map fun next => 32 :: (next.name.bytes ++ [61]) := by
  cases params with
  | nil => rfl
  | cons next params =>
      rw [List.flatMap_cons, next.text_append, ← List.cons_append,
        sdParamValue_equals]
      · rfl
      · rw [List.mem_cons, not_or]
        refine ⟨by decide, ?_⟩
        intro hquote
        exact (next.name.ne_of_mem hquote).2.2.2 rfl

theorem sdGetParamFrom_name {key : Bytes} {name : SdName} (hkey : IsKey key)
    (hne : name.bytes ≠ key) (tail : Bytes) :
    sdGetParamFrom key true (name.bytes ++ 61 :: quoteByte :: tail) =
      sdGetParamFrom key false tail := by
  have hname : 61 ∉ name.bytes := fun h => (name.ne_of_mem h).2.1 rfl
  have hno : ¬ key ++ ascii "=\"" <+:
      name.bytes ++ 61 :: quoteByte :: tail := by
    intro h
    exact hne (name_eq_of_start hkey.1.2 hname h).symm
  have hblank : ∀ c ∈ name.bytes ++ [61, quoteByte], c ≠ 32 := by
    intro c hc
    rw [List.mem_append] at hc
    rcases hc with hc | hc
    · exact (name.ne_of_mem hc).1
    · rintro rfl
      exact absurd hc (by decide)
  rw [show name.bytes ++ 61 :: quoteByte :: tail =
    (name.bytes ++ [61, quoteByte]) ++ tail by simp] at hno ⊢
  cases htext : name.bytes ++ [61, quoteByte] with
  | nil => simp at htext
  | cons c text =>
      rw [htext] at hno hblank
      rw [List.forall_mem_cons] at hblank
      rw [List.cons_append] at hno ⊢
      rw [sdGetParamFrom, if_neg fun h => hno h.2, decide_eq_false hblank.1]
      exact sdGetParamFrom_skip key hblank.2 tail

theorem sdGetParamFrom_named {key value : Bytes} (hvalue : Quoted value)
    (tail : Bytes) :
    sdGetParamFrom key true
      (key ++ 61 :: quoteByte :: (value ++ quoteByte :: tail)) =
        some value := by
  have hbegins : key ++ ascii "=\"" <+:
      key ++ 61 :: quoteByte :: (value ++ quoteByte :: tail) :=
    ⟨value ++ quoteByte :: tail, by simp [ascii, quoteByte]⟩
  have hdrop : (key ++ 61 :: quoteByte :: (value ++ quoteByte :: tail)).drop
      (key.length + 2) = value ++ quoteByte :: tail := by
    rw [show key ++ 61 :: quoteByte :: (value ++ quoteByte :: tail) =
      (key ++ [61, quoteByte]) ++ (value ++ quoteByte :: tail) by simp,
      List.drop_left' (by simp)]
  cases htext : key ++ 61 :: quoteByte :: (value ++ quoteByte :: tail) with
  | nil => simp at htext
  | cons c text =>
      rw [htext] at hbegins hdrop
      rw [sdGetParamFrom, if_pos ⟨rfl, hbegins⟩, hdrop, hvalue.paramValue]
      rfl

theorem sdGetParamFrom_params {key : Bytes} (hkey : IsKey key)
    (params : List SdParam) :
    sdGetParamFrom key false (params.flatMap SdParam.text) =
      lookupResult key params := by
  induction params with
  | nil => rfl
  | cons param params ih =>
      rw [List.flatMap_cons, param.text_append, sdGetParamFrom_false,
        show decide ((32 : UInt8) = 32) = true from rfl]
      unfold lookupResult
      by_cases hname : param.name.bytes = key
      · rw [if_pos hname, hname]
        exact sdGetParamFrom_named param.escaped.quoted _
      · rw [if_neg hname, sdGetParamFrom_name hkey hname,
          sdGetParamFrom_value hkey param.escaped, sdParamValue_next, ih]
        simp only [Bool.false_eq_true, false_and, false_or]

/-! ## The element -/

def elementBody (params : List SdParam) : Bytes :=
  (params.flatMap SdParam.text).tail

theorem hcsParseSd_element (ossl : OpenSSL) {params : List SdParam}
    (hne : params ≠ []) :
    hcsParseSd ossl (SdElement.text ⟨chainName, params⟩) =
      sdParseBody ossl (elementBody params) := by
  obtain ⟨param, params, rfl⟩ := List.exists_cons_of_ne_nil hne
  rw [← hcsParseSd_body]
  rfl

theorem sdGetParam_element {key : String} (hkey : IsKey (ascii key))
    (params : List SdParam) :
    sdGetParam (elementBody params) key = lookupResult (ascii key) params := by
  rw [← sdGetParamFrom_params hkey]
  cases params with
  | nil => rfl
  | cons param params =>
      unfold sdGetParam elementBody
      rw [List.flatMap_cons, param.text_append, sdGetParamFrom_false,
        List.tail_cons]
      rfl

def sdKeys : List String := ["t", "q", "h", "f", "qf", "qt", "s"]

theorem isKey_of_mem {key : String} (h : key ∈ sdKeys) :
    IsKey (ascii key) := by
  have hall : ∀ key ∈ sdKeys, PlainName (ascii key) ∧ ascii key ≠ [] := by
    decide +kernel
  exact hall key h

/--
Each key finds the parameter of that name and nothing else, and the record is
a message exactly if there is no parameter `t`.
-/
structure FollowsStructure (params : List SdParam) : Prop where
  parsed : params ≠ [] → ∀ ossl,
    hcsParseSd ossl (SdElement.text ⟨chainName, params⟩) =
      sdParseBody ossl (elementBody params)
  found : ∀ key ∈ sdKeys, ∀ param ∈ params, param.name.bytes = ascii key →
    sdGetParam (elementBody params) key = some param.value
  absent : ∀ key ∈ sdKeys, (∀ param ∈ params, param.name.bytes ≠ ascii key) →
    sdGetParam (elementBody params) key = none
  type : sdType (elementBody params) = .msg ↔
    ∀ param ∈ params, param.name.bytes ≠ ascii "t"

/--
Every lookup is safe, and the value of `t`, if there is one, is a single byte
other than NUL.
-/
def StructureSafe (params : List SdParam) : Prop :=
  (∀ key ∈ sdKeys, LookupSafe (ascii key) params) ∧
    ∀ param ∈ params, param.name.bytes = ascii "t" →
      ∃ c, param.value = [c] ∧ c ≠ 0

theorem valueOf_eq_none_iff {key : Bytes} {params : List SdParam} :
    valueOf key params = none ↔
      ∀ param ∈ params, param.name.bytes ≠ key := by
  simp [valueOf]

theorem valueOf_of_mem {key : Bytes} {params : List SdParam}
    (hdistinct : params.Pairwise (·.name.bytes ≠ ·.name.bytes))
    {param : SdParam} (hmem : param ∈ params)
    (hname : param.name.bytes = key) :
    valueOf key params = some param.value := by
  induction params with
  | nil => cases hmem
  | cons first params ih =>
      rw [List.pairwise_cons] at hdistinct
      rcases List.mem_cons.mp hmem with rfl | hmem
      · unfold valueOf
        rw [List.find?_cons_of_pos (by simpa using hname)]
        rfl
      · have hne : first.name.bytes ≠ key := by
          rw [← hname]
          exact hdistinct.1 param hmem
        rw [valueOf_cons_of_ne hne]
        exact ih hdistinct.2 hmem

theorem sdType_msg_iff {body : Bytes} :
    sdType body = .msg ↔
      ∀ v, sdGetParam body "t" = some v → ¬ ∃ c, v = [c] ∧ c ≠ 0 := by
  unfold sdType
  cases hget : sdGetParam body "t" with
  | none => simp
  | some v =>
      match v with
      | [] => simp
      | [c] =>
          simp only [HcsSdType.ofByte, Option.some.injEq, forall_eq',
            List.cons.injEq, and_true, exists_eq_left', not_not]
          split_ifs <;> simp_all
      | c :: d :: v => simp

/--
The search agrees with the structure of the element exactly when no value in
front of the parameter misleads it and `t` is a single byte.
-/
theorem followsStructure_iff (params : List SdParam)
    (hdistinct : params.Pairwise (·.name.bytes ≠ ·.name.bytes)) :
    FollowsStructure params ↔ StructureSafe params := by
  have hlookup : ∀ key ∈ sdKeys,
      (sdGetParam (elementBody params) key = valueOf (ascii key) params ↔
        LookupSafe (ascii key) params) := by
    intro key hkey
    rw [sdGetParam_element (isKey_of_mem hkey), lookupResult_eq_iff]
  have htype : (∀ key ∈ sdKeys, LookupSafe (ascii key) params) →
      ((sdType (elementBody params) = .msg ↔
          ∀ param ∈ params, param.name.bytes ≠ ascii "t") ↔
        ∀ param ∈ params, param.name.bytes = ascii "t" →
          ∃ c, param.value = [c] ∧ c ≠ 0) := by
    intro hsafe
    rw [sdType_msg_iff, (hlookup "t" (by decide)).mpr (hsafe "t" (by decide))]
    constructor
    · intro h param hparam hname
      by_contra hvalue
      apply h.mp _ param hparam hname
      intro v hv
      rw [valueOf_of_mem hdistinct hparam hname] at hv
      cases hv
      exact hvalue
    · intro h
      constructor
      · intro hmsg param hparam hname
        exact hmsg _ (valueOf_of_mem hdistinct hparam hname)
          (h param hparam hname)
      · intro habsent v hv
        rw [valueOf_eq_none_iff.mpr habsent] at hv
        cases hv
  constructor
  · intro h
    have hsafe : ∀ key ∈ sdKeys, LookupSafe (ascii key) params := by
      intro key hkey
      rw [← hlookup key hkey]
      cases hvalue : valueOf (ascii key) params with
      | none => exact h.absent key hkey (valueOf_eq_none_iff.mp hvalue)
      | some v =>
          obtain ⟨param, hfind, rfl⟩ := Option.map_eq_some_iff.mp hvalue
          have hname := List.find?_some hfind
          exact h.found key hkey param (List.mem_of_find?_eq_some hfind)
            (by simpa using hname)
    exact ⟨hsafe, (htype hsafe).mp h.type⟩
  · rintro ⟨hsafe, ht⟩
    constructor
    · exact fun hne ossl => hcsParseSd_element ossl hne
    · intro key hkey param hparam hname
      rw [(hlookup key hkey).mpr (hsafe key hkey)]
      exact valueOf_of_mem hdistinct hparam hname
    · intro key hkey habsent
      rw [(hlookup key hkey).mpr (hsafe key hkey)]
      exact valueOf_eq_none_iff.mpr habsent
    · exact (htype hsafe).mpr ht

def plainParam (letter : UInt8) (hletter : isNameByte letter = true)
    (value : Bytes) (hvalue : ∀ c ∈ value, mustEscape c = false) :
    SdParam where
  name :=
    { bytes := [letter]
      ne_nil := by simp
      short := by simp
      plain := by simpa using hletter }
  value := value
  escaped := by
    induction value with
    | nil => exact .nil
    | cons c value ih =>
        rw [List.forall_mem_cons] at hvalue
        exact .char hvalue.1 (ih hvalue.2)

def harmlessParams : List SdParam :=
  [plainParam 120 (by decide) (ascii "1") (by decide +kernel),
    plainParam 113 (by decide) (ascii "7") (by decide +kernel)]

def misleadingParams : List SdParam :=
  [plainParam 120 (by decide) (ascii "a t=") (by decide +kernel),
    plainParam 113 (by decide) (ascii "7") (by decide +kernel)]

theorem followsStructure_iff_sample : FollowsStructure harmlessParams := by
  rw [followsStructure_iff harmlessParams (by decide)]
  constructor
  · intro key _
    apply lookupSafe_of_no_blank
    decide
  · intro param hparam hname
    fin_cases hparam <;> exact absurd hname (by decide)

/-- A text inside of the value of `x` is taken for a parameter `t`. -/
theorem misleading_value_found :
    misleadingParams.Pairwise (·.name.bytes ≠ ·.name.bytes) ∧
      sdGetParam (elementBody misleadingParams) "t" = some (ascii " q=") ∧
      ¬ FollowsStructure misleadingParams := by
  have hfound : sdGetParam (elementBody misleadingParams) "t" =
      some (ascii " q=") := by decide +kernel
  refine ⟨by decide, hfound, ?_⟩
  intro h
  have habsent := h.absent "t" (by decide) (by decide)
  rw [hfound] at habsent
  cases habsent

end MmHashChainSigs.Common
