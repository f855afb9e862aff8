import Mathlib

/-!
# Escaping

A mark is put in front of every special symbol of a text.  When the mark is
special itself, an escaped text can be told from what follows an unescaped
special symbol, whatever that is.
-/

namespace MmHashChainSigs.Foundation.Escape

variable {α : Type} (special : α → Bool) (mark : α)

def escape (text : List α) : List α :=
  text.flatMap fun c => if special c then [mark, c] else [c]

@[simp] theorem escape_nil : escape special mark [] = [] := rfl

theorem escape_cons (c : α) (text : List α) :
    escape special mark (c :: text) =
      (if special c then [mark, c] else [c]) ++ escape special mark text := rfl

variable {special} {mark}

theorem escape_of_plain {text : List α} (h : ∀ c ∈ text, special c = false) :
    escape special mark text = text := by
  induction text with
  | nil => rfl
  | cons c text ih =>
      rw [List.forall_mem_cons] at h
      rw [escape_cons, ih h.2, h.1]
      rfl

theorem eq_mark_or_mem_of_mem_escape {c : α} {text : List α}
    (h : c ∈ escape special mark text) : c = mark ∨ c ∈ text := by
  obtain ⟨d, hd, hc⟩ := List.mem_flatMap.mp h
  split_ifs at hc
  · rw [List.mem_cons, List.mem_singleton] at hc
    rcases hc with hmark | rfl
    · exact .inl hmark
    · exact .inr hd
  · rw [List.mem_singleton] at hc
    rw [hc]
    exact .inr hd

theorem escape_length (text : List α) :
    (escape special mark text).length = text.length + text.countP special := by
  induction text with
  | nil => rfl
  | cons c text ih =>
      rw [escape_cons, List.length_append, ih, List.countP_cons,
        List.length_cons]
      by_cases hc : special c
      · simp only [if_pos hc, List.length_cons, List.length_nil]
        omega
      · simp only [if_neg hc, List.length_cons, List.length_nil]
        omega

theorem escape_length_le (text : List α) :
    (escape special mark text).length ≤ 2 * text.length := by
  rw [escape_length]
  have := List.countP_le_length (p := special) (l := text)
  omega

theorem escape_close_inj (hmark : special mark = true) {close : α}
    (hclose : special close = true) (hne : close ≠ mark)
    {text text' rest rest' : List α}
    (h : escape special mark text ++ close :: rest =
      escape special mark text' ++ close :: rest') :
    text = text' ∧ rest = rest' := by
  induction text generalizing text' with
  | nil =>
      cases text' with
      | nil =>
          cases h
          exact ⟨rfl, rfl⟩
      | cons d text' =>
          -- The second text would start with the closing symbol.
          rw [escape_cons] at h
          by_cases hd : special d
          · rw [if_pos hd] at h
            exact absurd (List.cons.inj h).1 hne
          · rw [if_neg hd] at h
            rw [(List.cons.inj h).1] at hclose
            exact absurd hclose hd
  | cons c text ih =>
      rw [escape_cons] at h
      by_cases hc : special c
      · rw [if_pos hc] at h
        cases text' with
        | nil => exact absurd (List.cons.inj h).1.symm hne
        | cons d text' =>
            rw [escape_cons] at h
            by_cases hd : special d
            · rw [if_pos hd] at h
              obtain ⟨rfl, hrest⟩ :=
                List.cons.inj (List.cons.inj h).2
              obtain ⟨rfl, rfl⟩ := ih hrest
              exact ⟨rfl, rfl⟩
            · rw [if_neg hd] at h
              rw [(List.cons.inj h).1] at hmark
              exact absurd hmark hd
      · rw [if_neg hc] at h
        cases text' with
        | nil =>
            rw [← (List.cons.inj h).1] at hclose
            exact absurd hclose hc
        | cons d text' =>
            rw [escape_cons] at h
            by_cases hd : special d
            · rw [if_pos hd] at h
              rw [← (List.cons.inj h).1] at hmark
              exact absurd hmark hc
            · rw [if_neg hd] at h
              obtain ⟨rfl, hrest⟩ := List.cons.inj h
              obtain ⟨rfl, rfl⟩ := ih hrest
              exact ⟨rfl, rfl⟩

/-- A pattern without special symbols is not made or broken by escaping. -/
theorem prefix_escape_iff (hmark : special mark = true) {pattern : List α}
    (hpattern : ∀ c ∈ pattern, special c = false) (text : List α) :
    pattern <+: escape special mark text ↔ pattern <+: text := by
  induction text generalizing pattern with
  | nil => rfl
  | cons c text ih =>
      cases pattern with
      | nil => simp
      | cons d pattern =>
          rw [List.forall_mem_cons] at hpattern
          rw [escape_cons]
          by_cases hc : special c
          · rw [if_pos hc, List.cons_append, List.cons_prefix_cons,
              List.cons_prefix_cons]
            refine iff_of_false ?_ ?_
            · rintro ⟨rfl, -⟩
              rw [hmark] at hpattern
              cases hpattern.1
            · rintro ⟨rfl, -⟩
              rw [hc] at hpattern
              cases hpattern.1
          · rw [if_neg hc, List.singleton_append, List.cons_prefix_cons,
              List.cons_prefix_cons, ih hpattern.2]

theorem infix_escape_iff (hmark : special mark = true) {pattern : List α}
    (hne : pattern ≠ []) (hpattern : ∀ c ∈ pattern, special c = false)
    (text : List α) :
    pattern <:+: escape special mark text ↔ pattern <:+: text := by
  induction text with
  | nil => rfl
  | cons c text ih =>
      have hprefix := prefix_escape_iff hmark hpattern (c :: text)
      rw [List.infix_cons_iff, ← hprefix, ← ih, escape_cons]
      by_cases hc : special c
      · have hnot : ∀ d rest, special d = true → ¬ pattern <+: d :: rest := by
          intro d rest hd hstart
          obtain ⟨x, pattern, rfl⟩ := List.exists_cons_of_ne_nil hne
          have hx := hpattern x List.mem_cons_self
          rw [(List.cons_prefix_cons.mp hstart).1, hd] at hx
          cases hx
        rw [if_pos hc]
        simp only [List.cons_append, List.nil_append, List.infix_cons_iff,
          hnot mark _ hmark, hnot c _ hc, false_or]
      · rw [if_neg hc, List.singleton_append, List.infix_cons_iff]

end MmHashChainSigs.Foundation.Escape
