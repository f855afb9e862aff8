import Mathlib

/-!
# First occurrence of a pattern in a list

`findSub pattern text` splits `text` in front of the first occurrence of
`pattern`.  It is the meaning of the loops that compare a fixed prefix with
every position of a buffer and stop at the first match.
-/

namespace MmHashChainSigs.Foundation

variable {α : Type} [DecidableEq α]

def findSub (pattern : List α) : List α → Option (List α × List α)
  | [] => if pattern = [] then some ([], []) else none
  | c :: text =>
      if pattern <+: c :: text then some ([], c :: text)
      else (findSub pattern text).map fun split => (c :: split.1, split.2)

theorem findSub_eq_none_iff (pattern text : List α) :
    findSub pattern text = none ↔ ¬ pattern <:+: text := by
  induction text with
  | nil => by_cases h : pattern = [] <;> simp [findSub, h]
  | cons c text ih =>
      by_cases h : pattern <+: c :: text
      · simp [findSub, h, h.isInfix]
      · simp [findSub, h, ih, List.infix_cons_iff]

theorem findSub_some {pattern text before rest : List α}
    (h : findSub pattern text = some (before, rest)) :
    text = before ++ rest ∧ pattern <+: rest := by
  induction text generalizing before with
  | nil =>
      by_cases hp : pattern = []
      · simp only [findSub, hp, if_true, Option.some.injEq,
          Prod.mk.injEq] at h
        obtain ⟨rfl, rfl⟩ := h
        simp [hp]
      · simp [findSub, hp] at h
  | cons c text ih =>
      by_cases hp : pattern <+: c :: text
      · simp only [findSub, hp, if_true, Option.some.injEq,
          Prod.mk.injEq] at h
        obtain ⟨rfl, rfl⟩ := h
        exact ⟨rfl, hp⟩
      · simp only [findSub, hp, if_false, Option.map_eq_some_iff,
          Prod.mk.injEq, Prod.exists] at h
        obtain ⟨first, second, hsub, rfl, rfl⟩ := h
        obtain ⟨rfl, hstarts⟩ := ih hsub
        exact ⟨rfl, hstarts⟩

/--
A pattern whose first symbol does not occur again in it cannot straddle the
start of one of its own occurrences, so the text in front of an occurrence
decides whether that occurrence is the first.
-/
theorem findSub_append {mark : α} {tail : List α} (hmark : mark ∉ tail)
    {before : List α} (hbefore : ¬ mark :: tail <:+: before)
    (rest : List α) :
    findSub (mark :: tail) (before ++ (mark :: tail ++ rest)) =
      some (before, mark :: tail ++ rest) := by
  induction before with
  | nil =>
      simp only [List.nil_append, List.cons_append, findSub]
      rw [if_pos]
      exact List.prefix_append (mark :: tail) rest
  | cons c before ih =>
      have hinfix := List.infix_cons_iff.not.mp hbefore
      push Not at hinfix
      have hstart : ¬ mark :: tail <+: c :: (before ++ (mark :: tail ++ rest)) := by
        intro hstarts
        have hlong : (before ++ (mark :: tail ++ rest)).take tail.length =
            tail := by
          have := (List.cons_prefix_cons.mp hstarts).2
          exact (List.prefix_iff_eq_take.mp this).symm
        obtain rfl : mark = c := (List.cons_prefix_cons.mp hstarts).1
        by_cases hlen : tail.length ≤ before.length
        · rw [List.take_append_of_le_length hlen] at hlong
          exact hinfix.1 (List.cons_prefix_cons.mpr
            ⟨rfl, hlong ▸ List.take_prefix _ _⟩)
        · have hmem : mark ∈ (before ++ (mark :: tail ++ rest)).take
              tail.length := by
            rw [List.take_append]
            obtain ⟨extra, hextra⟩ :=
              Nat.exists_eq_add_of_lt (Nat.lt_of_not_le hlen)
            rw [hextra, show before.length + extra + 1 - before.length =
              extra + 1 by omega]
            simp
          exact hmark (hlong ▸ hmem)
      simp only [List.cons_append, findSub]
      rw [if_neg (by simpa using hstart)]
      simp only [List.cons_append] at ih
      rw [ih hinfix.2]
      rfl

theorem findSub_some_before {pattern text before rest : List α}
    (h : findSub pattern text = some (before, rest)) (hne : pattern ≠ []) :
    ¬ pattern <:+: before := by
  induction text generalizing before with
  | nil => simp [findSub, hne] at h
  | cons c text ih =>
      by_cases hp : pattern <+: c :: text
      · simp only [findSub, hp, if_true, Option.some.injEq,
          Prod.mk.injEq] at h
        simpa [← h.1] using hne
      · simp only [findSub, hp, if_false, Option.map_eq_some_iff,
          Prod.mk.injEq, Prod.exists] at h
        obtain ⟨first, second, hsub, rfl, rfl⟩ := h
        rw [List.infix_cons_iff, not_or]
        refine ⟨fun hstarts => hp ?_, ih hsub⟩
        rw [(findSub_some hsub).1, ← List.cons_append]
        exact hstarts.trans (List.prefix_append _ _)

omit [DecidableEq α] in
/-- An occurrence of a pattern does not reach over symbols it does not have. -/
theorem infix_of_infix_gap {pattern before gap after : List α}
    (hgap : gap ≠ []) (hfresh : ∀ x ∈ gap, x ∉ pattern)
    (h : pattern <:+: before ++ gap ++ after) :
    pattern <:+: before ∨ pattern <:+: after := by
  have hleft : ∀ {left : List α}, left ≠ [] → left <:+ before ++ gap →
      ∃ x ∈ gap, x ∈ left := by
    intro left hne hsuffix
    have hlast := List.getLast_mem hgap
    refine ⟨gap.getLast hgap, hlast, ?_⟩
    have heq := hsuffix.getLast hne
    rw [List.getLast_append_of_ne_nil _ hgap] at heq
    rw [← heq]
    exact List.getLast_mem hne
  rcases List.infix_append_iff.mp h with hfront | hafter | hover
  · rcases List.infix_append_iff.mp hfront with hbefore | hinside | hover
    · exact .inl hbefore
    · cases pattern with
      | nil => exact .inl List.nil_infix
      | cons x pattern =>
          have hx : x ∈ gap := hinside.subset (List.mem_cons_self ..)
          exact absurd (List.mem_cons_self ..) (hfresh x hx)
    · obtain ⟨left, right, rfl, hsuffix, hstarts⟩ := hover
      cases right with
      | nil => exact .inl (by simpa using hsuffix.isInfix)
      | cons x right =>
          have hx : x ∈ gap := hstarts.subset (List.mem_cons_self ..)
          exact absurd (by simp) (hfresh x hx)
  · exact .inr hafter
  · obtain ⟨left, right, rfl, hsuffix, hstarts⟩ := hover
    by_cases hne : left = []
    · subst hne
      exact .inr hstarts.isInfix
    · obtain ⟨x, hgap, hx⟩ := hleft hne hsuffix
      exact absurd (List.mem_append_left _ hx) (hfresh x hgap)

omit [DecidableEq α] in
theorem infix_append_iff_of_head {pattern front back : List α}
    (hne : pattern ≠ []) (hhead : ∀ x ∈ pattern.head?, x ∉ front) :
    pattern <:+: front ++ back ↔ pattern <:+: back := by
  obtain ⟨x, pattern, rfl⟩ := List.exists_cons_of_ne_nil hne
  have hx : x ∉ front := hhead x rfl
  constructor
  · rintro ⟨s, t, h⟩
    rw [List.append_assoc, List.append_eq_append_iff] at h
    rcases h with ⟨rest, rfl, hrest⟩ | ⟨rest, rfl, rfl⟩
    · cases rest with
      | nil => exact ⟨[], t, by simpa using hrest⟩
      | cons y rest =>
          rw [List.cons_append, List.cons_append, List.cons.injEq] at hrest
          rw [hrest.1] at hx
          exact absurd (by simp) hx
    · exact ⟨rest, t, by simp⟩
  · exact fun h => h.trans (List.suffix_append front back).isInfix

/-! ## How often a pattern starts -/

def occurrences (pattern : List α) : List α → Nat
  | [] => 0
  | c :: text =>
      (if pattern <+: c :: text then 1 else 0) + occurrences pattern text

theorem occurrences_eq_zero_iff {pattern : List α} (hne : pattern ≠ [])
    (text : List α) : occurrences pattern text = 0 ↔ ¬ pattern <:+: text := by
  induction text with
  | nil => simp [occurrences, hne]
  | cons c text ih =>
      rw [occurrences, List.infix_cons_iff, not_or, ← ih, Nat.add_eq_zero_iff]
      split_ifs with hstarts <;> simp [hstarts]

theorem occurrences_gap {pattern : List α} (hne : pattern ≠ []) {gap : α}
    (hgap : gap ∉ pattern) (front back : List α) :
    occurrences pattern (front ++ gap :: back) =
      occurrences pattern front + occurrences pattern back := by
  induction front with
  | nil =>
      have hnot : ¬ pattern <+: gap :: back := by
        obtain ⟨x, pattern, rfl⟩ := List.exists_cons_of_ne_nil hne
        intro hstarts
        rw [(List.cons_prefix_cons.mp hstarts).1] at hgap
        exact hgap List.mem_cons_self
      simp [occurrences, hnot]
  | cons c front ih =>
      have hsame : pattern <+: c :: (front ++ gap :: back) ↔
          pattern <+: c :: front := by
        constructor
        · intro hstarts
          by_cases hlen : pattern.length ≤ (c :: front).length
          · exact List.prefix_of_prefix_length_le hstarts
              (List.prefix_append (c :: front) (gap :: back)) hlen
          · have hlong : c :: front ++ [gap] <+: pattern := by
              apply List.prefix_of_prefix_length_le _ hstarts
              · rw [List.length_append, List.length_singleton]
                omega
              · exact ⟨back, by simp⟩
            exact absurd (hlong.subset (by simp)) hgap
        · intro hstarts
          exact hstarts.trans (List.prefix_append (c :: front) (gap :: back))
      rw [List.cons_append, occurrences, occurrences, ih, Nat.add_assoc]
      simp only [hsame]

theorem occurrences_append_of_head {mark : α} {tail front : List α}
    (h : mark ∉ front) (back : List α) :
    occurrences (mark :: tail) (front ++ back) =
      occurrences (mark :: tail) back := by
  induction front with
  | nil => rfl
  | cons c front ih =>
      rw [List.mem_cons, not_or] at h
      have hnot : ¬ mark :: tail <+: c :: (front ++ back) := fun hstarts =>
        h.1 (List.cons_prefix_cons.mp hstarts).1
      rw [List.cons_append, occurrences, if_neg hnot, ih h.2, Nat.zero_add]

theorem occurrences_of_head {mark : α} {tail text : List α}
    (h : mark ∉ text) : occurrences (mark :: tail) text = 0 := by
  rw [← List.append_nil text, occurrences_append_of_head h]
  rfl

end MmHashChainSigs.Foundation
