import Mathlib

/-!
# Sequences cut into headed segments

A segment is a head followed by items that are no heads.  Cutting a sequence
in front of every head is the only way to write it as a concatenation of
segments, and appending one item either opens a segment or extends the last.
`Throughout` states a property of every item relative to the items before it.
-/

namespace MmHashChainSigs.Foundation

variable {α : Type}

def Throughout (rule : List α → α → Prop) (items : List α) : Prop :=
  ∀ before item after, items = before ++ item :: after → rule before item

@[simp] theorem throughout_nil (rule : List α → α → Prop) :
    Throughout rule [] := by
  intro before item after h
  simp at h

theorem throughout_concat {rule : List α → α → Prop} {items : List α}
    {item : α} :
    Throughout rule (items ++ [item]) ↔
      Throughout rule items ∧ rule items item := by
  constructor
  · intro h
    refine ⟨fun before x after hx => ?_, h items item [] rfl⟩
    exact h before x (after ++ [item]) (by simp [hx])
  · rintro ⟨hitems, hitem⟩ before x after hx
    rcases List.eq_nil_or_concat' after with rfl | ⟨after, y, rfl⟩
    · obtain ⟨rfl, hlast⟩ := List.append_inj' hx rfl
      obtain rfl : item = x := by simpa using hlast
      exact hitem
    · rw [← List.cons_append, ← List.append_assoc] at hx
      exact hitems before x after (List.append_inj' hx rfl).1

theorem Throughout.initial {rule : List α → α → Prop} {items more : List α}
    (h : Throughout rule (items ++ more)) : Throughout rule items := by
  intro before item after hitems
  exact h before item (after ++ more) (by simp [hitems])

/-! ## Segments -/

variable (head : α → Prop)

def IsSegment (segment : List α) : Prop :=
  ∃ first rest, segment = first :: rest ∧ head first ∧
    ∀ item ∈ rest, ¬ head item

def Splits (items : List α) (segments : List (List α)) : Prop :=
  items = segments.flatten ∧ ∀ segment ∈ segments, IsSegment head segment

variable {head}

theorem IsSegment.ne_nil {segment : List α} (h : IsSegment head segment) :
    segment ≠ [] := by
  obtain ⟨first, rest, rfl, -⟩ := h
  simp

@[simp] theorem isSegment_singleton {item : α} :
    IsSegment head [item] ↔ head item := by
  constructor
  · rintro ⟨first, rest, heq, hfirst, -⟩
    obtain ⟨rfl, -⟩ := List.cons.inj heq
    exact hfirst
  · exact fun h => ⟨item, [], rfl, h, by simp⟩

theorem isSegment_concat {segment : List α} (hne : segment ≠ []) {item : α} :
    IsSegment head (segment ++ [item]) ↔
      IsSegment head segment ∧ ¬ head item := by
  obtain ⟨first, rest, rfl⟩ := List.exists_cons_of_ne_nil hne
  constructor
  · rintro ⟨first', rest', heq, hfirst, hrest⟩
    obtain ⟨rfl, rfl⟩ := List.cons.inj heq
    exact ⟨⟨first, rest, rfl, hfirst, fun x hx => hrest x (by simp [hx])⟩,
      hrest item (by simp)⟩
  · rintro ⟨⟨first', rest', heq, hfirst, hrest⟩, hitem⟩
    obtain ⟨rfl, rfl⟩ := List.cons.inj heq
    refine ⟨first, rest ++ [item], rfl, hfirst, fun x hx => ?_⟩
    rcases List.mem_append.mp hx with hx | hx
    · exact hrest x hx
    · rwa [List.mem_singleton.mp hx]

@[simp] theorem splits_nil {segments : List (List α)} :
    Splits head [] segments ↔ segments = [] := by
  constructor
  · rintro ⟨hflat, hsegments⟩
    cases segments with
    | nil => rfl
    | cons segment segments =>
        have hne := (hsegments segment (by simp)).ne_nil
        simp_all
  · rintro rfl
    exact ⟨rfl, by simp⟩

private theorem splits_concat_last {items : List α} {item : α}
    {segments : List (List α)} (h : Splits head (items ++ [item]) segments) :
    ∃ init last, segments = init ++ [last ++ [item]] ∧
      items = init.flatten ++ last ∧
      (∀ segment ∈ init, IsSegment head segment) ∧
      IsSegment head (last ++ [item]) := by
  obtain ⟨hflat, hsegments⟩ := h
  rcases List.eq_nil_or_concat' segments with rfl | ⟨init, last, rfl⟩
  · simp at hflat
  have hlast := hsegments last (by simp)
  obtain ⟨last, item', rfl⟩ :=
    (List.eq_nil_or_concat' last).resolve_left hlast.ne_nil
  rw [List.flatten_append, List.flatten_singleton, ← List.append_assoc] at hflat
  obtain ⟨hitems, hitem⟩ := List.append_inj' hflat rfl
  obtain rfl : item = item' := by simpa using hitem
  exact ⟨init, last, rfl, hitems, fun s hs => hsegments s (by simp [hs]), hlast⟩

theorem splits_concat_of_head {items : List α} {item : α}
    {segments : List (List α)} (hitem : head item) :
    Splits head (items ++ [item]) segments ↔
      ∃ init, segments = init ++ [[item]] ∧ Splits head items init := by
  constructor
  · intro h
    obtain ⟨init, last, rfl, rfl, hinit, hlast⟩ := splits_concat_last h
    by_cases hnil : last = []
    · subst hnil
      exact ⟨init, by simp, by simp, hinit⟩
    · exact absurd hitem ((isSegment_concat hnil).mp hlast).2
  · rintro ⟨init, rfl, rfl, hinit⟩
    refine ⟨by simp, fun segment hsegment => ?_⟩
    rcases List.mem_append.mp hsegment with hs | hs
    · exact hinit segment hs
    · rw [List.mem_singleton.mp hs]
      exact isSegment_singleton.mpr hitem

theorem splits_concat_of_not_head {items : List α} {item : α}
    {segments : List (List α)} (hitem : ¬ head item) :
    Splits head (items ++ [item]) segments ↔
      ∃ init last, segments = init ++ [last ++ [item]] ∧
        Splits head items (init ++ [last]) := by
  constructor
  · intro h
    obtain ⟨init, last, rfl, rfl, hinit, hlast⟩ := splits_concat_last h
    by_cases hnil : last = []
    · subst hnil
      exact absurd (isSegment_singleton.mp hlast) hitem
    · refine ⟨init, last, rfl, by simp, fun segment hsegment => ?_⟩
      rcases List.mem_append.mp hsegment with hs | hs
      · exact hinit segment hs
      · rw [List.mem_singleton.mp hs]
        exact ((isSegment_concat hnil).mp hlast).1
  · rintro ⟨init, last, rfl, rfl, hsegments⟩
    refine ⟨by simp, fun segment hsegment => ?_⟩
    rcases List.mem_append.mp hsegment with hs | hs
    · exact hsegments segment (by simp [hs])
    · rw [List.mem_singleton.mp hs]
      have hlast := hsegments last (by simp)
      exact (isSegment_concat hlast.ne_nil).mpr ⟨hlast, hitem⟩

theorem Splits.unique {items : List α} {segments segments' : List (List α)}
    (h : Splits head items segments) (h' : Splits head items segments') :
    segments = segments' := by
  induction items using List.reverseRecOn generalizing segments segments' with
  | nil =>
      rw [splits_nil.mp h, splits_nil.mp h']
  | append_singleton items item ih =>
      by_cases hitem : head item
      · obtain ⟨init, rfl, hinit⟩ := (splits_concat_of_head hitem).mp h
        obtain ⟨init', rfl, hinit'⟩ := (splits_concat_of_head hitem).mp h'
        rw [ih hinit hinit']
      · obtain ⟨init, last, rfl, hinit⟩ :=
          (splits_concat_of_not_head hitem).mp h
        obtain ⟨init', last', rfl, hinit'⟩ :=
          (splits_concat_of_not_head hitem).mp h'
        obtain ⟨rfl, hlast⟩ := List.append_inj' (ih hinit hinit') rfl
        obtain rfl : last = last' := by simpa using hlast
        rfl

theorem Splits.append {items more : List α}
    {segments segments' : List (List α)} (h : Splits head items segments)
    (h' : Splits head more segments') :
    Splits head (items ++ more) (segments ++ segments') := by
  refine ⟨by rw [h.1, h'.1, List.flatten_append], fun segment hsegment => ?_⟩
  rcases List.mem_append.mp hsegment with hs | hs
  · exact h.2 segment hs
  · exact h'.2 segment hs

theorem Splits.of_append {items more : List α} {segments : List (List α)}
    (hhead : ∀ item ∈ more.head?, head item)
    (h : Splits head (items ++ more) segments) :
    ∃ before after, segments = before ++ after ∧
      Splits head items before ∧ Splits head more after := by
  induction more using List.reverseRecOn generalizing segments with
  | nil =>
      rw [List.append_nil] at h
      exact ⟨segments, [], (List.append_nil _).symm, h, splits_nil.mpr rfl⟩
  | append_singleton more item ih =>
      rw [← List.append_assoc] at h
      have hmore : ∀ first ∈ more.head?, head first := by
        intro first hfirst
        apply hhead
        cases more with
        | nil => cases hfirst
        | cons _ _ => exact hfirst
      by_cases hitem : head item
      · obtain ⟨init, rfl, hinit⟩ := (splits_concat_of_head hitem).mp h
        obtain ⟨before, after, rfl, hbefore, hafter⟩ := ih hmore hinit
        refine ⟨before, after ++ [[item]], List.append_assoc _ _ _, hbefore, ?_⟩
        exact (splits_concat_of_head hitem).mpr ⟨after, rfl, hafter⟩
      · obtain ⟨init, last, rfl, hinit⟩ :=
          (splits_concat_of_not_head hitem).mp h
        obtain ⟨before, after, heq, hbefore, hafter⟩ := ih hmore hinit
        rcases List.eq_nil_or_concat' after with rfl | ⟨after, last', rfl⟩
        · have hnil : more = [] := by simpa using hafter.1
          subst hnil
          exact absurd (hhead item rfl) hitem
        · rw [← List.append_assoc] at heq
          obtain ⟨rfl, hlast⟩ := List.append_inj' heq rfl
          obtain rfl : last = last' := by simpa using hlast
          refine ⟨before, after ++ [last ++ [item]],
            List.append_assoc _ _ _, hbefore, ?_⟩
          exact (splits_concat_of_not_head hitem).mpr
            ⟨after, last, rfl, hafter⟩

theorem Splits.head_isHead {items : List α} {segments : List (List α)}
    (h : Splits head items segments) : ∀ item ∈ items.head?, head item := by
  intro item hitem
  cases segments with
  | nil =>
      rw [h.1] at hitem
      cases hitem
  | cons segment segments =>
      obtain ⟨first, rest, rfl, hfirst, -⟩ := h.2 segment List.mem_cons_self
      rw [h.1] at hitem
      cases hitem
      exact hfirst

theorem Splits.initial {items more : List α} {segments : List (List α)}
    (hne : items ≠ []) (h : Splits head (items ++ more) segments) :
    ∃ old last rest after, segments = old ++ (last ++ rest) :: after ∧
      Splits head items (old ++ [last]) := by
  induction more using List.reverseRecOn generalizing segments with
  | nil =>
      rw [List.append_nil] at h
      rcases List.eq_nil_or_concat' segments with rfl | ⟨old, last, rfl⟩
      · exact absurd h.1 hne
      · exact ⟨old, last, [], [], by rw [List.append_nil], h⟩
  | append_singleton more item ih =>
      rw [← List.append_assoc] at h
      by_cases hitem : head item
      · obtain ⟨init, rfl, hinit⟩ := (splits_concat_of_head hitem).mp h
        obtain ⟨old, last, rest, after, rfl, hsplits⟩ := ih hinit
        exact ⟨old, last, rest, after ++ [[item]], by simp, hsplits⟩
      · obtain ⟨init, last', rfl, hinit⟩ :=
          (splits_concat_of_not_head hitem).mp h
        obtain ⟨old, last, rest, after, heq, hsplits⟩ := ih hinit
        rcases List.eq_nil_or_concat' after with rfl | ⟨after, last'', rfl⟩
        · obtain ⟨rfl, hlast⟩ := List.append_inj' heq rfl
          obtain rfl : last' = last ++ rest := by simpa using hlast
          exact ⟨init, last, rest ++ [item], [], by simp, hsplits⟩
        · rw [← List.cons_append, ← List.append_assoc] at heq
          obtain ⟨rfl, hlast⟩ := List.append_inj' heq rfl
          exact ⟨old, last, rest, after ++ [last' ++ [item]], by simp,
            hsplits⟩

end MmHashChainSigs.Foundation
