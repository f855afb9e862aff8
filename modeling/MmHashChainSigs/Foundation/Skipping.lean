import Mathlib

/-!
# Reading a text while parts of it are skipped

At a place where a part starts, the reader goes on behind it; everywhere else
it takes one symbol.  What the reader has taken is a text of its own, in which
symbols from both sides of a skipped part stand together, so a pattern may
occur in it that did not occur before.
-/

namespace MmHashChainSigs.Foundation.Skipping

variable {α : Type} (part : List α → List α → Prop)

/-- `part text rest`: a part starts the text, and `rest` is behind it. -/
def Starts (text : List α) : Prop := ∃ rest, part text rest

inductive Leaves : List α → List α → Prop where
  | nil (h : ¬ Starts part []) : Leaves [] []
  | take {c : α} {text out : List α} (h : ¬ Starts part (c :: text))
      (hrest : Leaves text out) : Leaves (c :: text) (c :: out)
  | skip {text rest out : List α} (h : part text rest)
      (hrest : Leaves rest out) : Leaves text out

inductive Reads : List α → List α → List α → Prop where
  | nil (text : List α) : Reads [] text text
  | take {c : α} {pattern text rest : List α} (h : ¬ Starts part (c :: text))
      (hrest : Reads pattern text rest) : Reads (c :: pattern) (c :: text) rest
  | skip {c : α} {pattern text after rest : List α} (h : part text after)
      (hrest : Reads (c :: pattern) after rest) : Reads (c :: pattern) text rest

structure IsPart : Prop where
  unique : ∀ {text rest rest'}, part text rest → part text rest' → rest = rest'
  suffix : ∀ {text rest}, part text rest → rest <:+ text
  shorter : ∀ {text rest}, part text rest → rest.length < text.length

variable {part}

theorem leaves_self {text : List α}
    (h : ∀ rest, rest <:+ text → ¬ Starts part rest) :
    Leaves part text text := by
  induction text with
  | nil => exact .nil (h [] (List.suffix_refl _))
  | cons c text ih =>
      apply Leaves.take (h _ (List.suffix_refl _))
      exact ih fun rest hrest => h rest (hrest.trans (List.suffix_cons _ _))

theorem Leaves.map {β : Type} {f : α → β} {part' : List β → List β → Prop}
    (hpart : ∀ text rest, part text rest → part' (text.map f) (rest.map f))
    (hstarts : ∀ text, Starts part' (text.map f) → Starts part text)
    {text out : List α} (h : Leaves part text out) :
    Leaves part' (text.map f) (out.map f) := by
  induction h with
  | nil hnot => exact .nil fun hstart => hnot (hstarts [] hstart)
  | take hnot _ ih => exact .take (fun hstart => hnot (hstarts (_ :: _) hstart)) ih
  | skip hpart' _ ih => exact .skip (hpart _ _ hpart') ih

theorem leaves_append_iff {piece text out : List α}
    (h : ∀ first rest, piece = first ++ rest → rest ≠ [] →
      ¬ Starts part (rest ++ text)) :
    Leaves part (piece ++ text) out ↔
      ∃ more, out = piece ++ more ∧ Leaves part text more := by
  induction piece generalizing out with
  | nil => simp
  | cons c piece ih =>
      have hnot : ¬ Starts part (c :: (piece ++ text)) := h [] (c :: piece) rfl
        (by simp)
      have hpiece := @ih
      constructor
      · intro hleaves
        cases hleaves with
        | take _ hrest =>
            obtain ⟨more, rfl, hmore⟩ := (hpiece fun first rest hsplit =>
              h (c :: first) rest (by rw [hsplit]; rfl)).mp hrest
            exact ⟨more, rfl, hmore⟩
        | skip hpart => exact absurd ⟨_, hpart⟩ hnot
      · rintro ⟨more, rfl, hmore⟩
        apply Leaves.take hnot
        exact (hpiece fun first rest hsplit =>
          h (c :: first) rest (by rw [hsplit]; rfl)).mpr ⟨more, rfl, hmore⟩

/-! ## What is taken and what is read -/

theorem Reads.leaves {pattern text rest out : List α}
    (h : Reads part pattern text rest) (hrest : Leaves part rest out) :
    Leaves part text (pattern ++ out) := by
  induction h with
  | nil => exact hrest
  | take hnot _ ih => exact .take hnot (ih hrest)
  | skip hpart _ ih => exact .skip hpart (ih hrest)

theorem Leaves.reads {text pattern out : List α}
    (h : Leaves part text (pattern ++ out)) :
    ∃ rest, Reads part pattern text rest ∧ Leaves part rest out := by
  generalize htaken : pattern ++ out = taken at h
  induction h generalizing pattern with
  | nil hnot =>
      obtain ⟨rfl, rfl⟩ := List.append_eq_nil_iff.mp htaken
      exact ⟨[], .nil _, .nil hnot⟩
  | take hnot hrest ih =>
      cases pattern with
      | nil =>
          rw [List.nil_append] at htaken
          rw [htaken]
          exact ⟨_, .nil _, .take hnot hrest⟩
      | cons d pattern =>
          rw [List.cons_append, List.cons.injEq] at htaken
          obtain ⟨rfl, htaken⟩ := htaken
          obtain ⟨rest, hreads, hout⟩ := ih htaken
          exact ⟨rest, .take hnot hreads, hout⟩
  | skip hpart hrest ih =>
      cases pattern with
      | nil =>
          rw [List.nil_append] at htaken
          rw [htaken]
          exact ⟨_, .nil _, .skip hpart hrest⟩
      | cons d pattern =>
          obtain ⟨rest, hreads, hout⟩ := ih htaken
          exact ⟨rest, .skip hpart hreads, hout⟩

theorem Reads.suffix (hp : IsPart part) {pattern text rest : List α}
    (h : Reads part pattern text rest) : rest <:+ text := by
  induction h with
  | nil => exact List.suffix_refl _
  | take _ _ ih => exact ih.trans (List.suffix_cons _ _)
  | skip hpart _ ih => exact ih.trans (hp.suffix hpart)

theorem Reads.length (hp : IsPart part) {pattern text rest : List α}
    (h : Reads part pattern text rest) :
    pattern.length + rest.length ≤ text.length := by
  induction h with
  | nil => simp
  | take _ _ ih =>
      simp only [List.length_cons]
      omega
  | skip hpart _ ih =>
      have hshorter := hp.shorter hpart
      omega

section IsPart

variable (hp : IsPart part)

include hp

theorem Leaves.unique {text out out' : List α} (h : Leaves part text out)
    (h' : Leaves part text out') : out = out' := by
  induction h generalizing out' with
  | nil hnot =>
      cases h' with
      | nil => rfl
      | skip hpart => exact absurd ⟨_, hpart⟩ hnot
  | take hnot _ ih =>
      cases h' with
      | take _ hrest => rw [ih hrest]
      | skip hpart => exact absurd ⟨_, hpart⟩ hnot
  | skip hpart _ ih =>
      cases h' with
      | nil hnot => exact absurd ⟨_, hpart⟩ hnot
      | take hnot _ => exact absurd ⟨_, hpart⟩ hnot
      | skip hpart' hrest =>
          rw [← hp.unique hpart hpart'] at hrest
          exact ih hrest

theorem Reads.unique {pattern text rest rest' : List α}
    (h : Reads part pattern text rest) (h' : Reads part pattern text rest') :
    rest = rest' := by
  induction h with
  | nil =>
      cases h' with
      | nil => rfl
  | take hnot _ ih =>
      cases h' with
      | take _ hrest => exact ih hrest
      | skip hpart => exact absurd ⟨_, hpart⟩ hnot
  | skip hpart _ ih =>
      cases h' with
      | take hnot => exact absurd ⟨_, hpart⟩ hnot
      | skip hpart' hrest =>
          rw [← hp.unique hpart hpart'] at hrest
          exact ih hrest

theorem exists_leaves (text : List α) : ∃ out, Leaves part text out := by
  induction hlen : text.length using Nat.strong_induction_on
    generalizing text with
  | _ n ih =>
      by_cases hstarts : Starts part text
      · obtain ⟨rest, hpart⟩ := hstarts
        have hless := hp.shorter hpart
        obtain ⟨out, hout⟩ := ih _ (by omega) rest rfl
        exact ⟨out, .skip hpart hout⟩
      · cases text with
        | nil => exact ⟨[], .nil hstarts⟩
        | cons c text =>
            rw [List.length_cons] at hlen
            obtain ⟨out, hout⟩ := ih _ (by omega) text rfl
            exact ⟨c :: out, .take hstarts hout⟩

theorem Leaves.sublist {text out : List α} (h : Leaves part text out) :
    out.Sublist text := by
  induction h with
  | nil => exact List.Sublist.refl _
  | take _ _ ih => exact ih.cons_cons _
  | skip hpart _ ih => exact ih.trans (hp.suffix hpart).sublist

theorem leaves_skip_iff {text rest out : List α} (h : part text rest) :
    Leaves part text out ↔ Leaves part rest out := by
  constructor
  · intro hleaves
    cases hleaves with
    | nil hnot => exact absurd ⟨_, h⟩ hnot
    | take hnot => exact absurd ⟨_, h⟩ hnot
    | skip hpart hrest =>
        rw [hp.unique h hpart]
        exact hrest
  · exact .skip h

/-- What is taken starts with a pattern where the pattern is read. -/
theorem Leaves.prefix_iff {text out : List α} (h : Leaves part text out)
    (pattern : List α) :
    pattern <+: out ↔ ∃ rest, Reads part pattern text rest := by
  constructor
  · rintro ⟨after, rfl⟩
    obtain ⟨rest, hreads, -⟩ := h.reads
    exact ⟨rest, hreads⟩
  · rintro ⟨rest, hreads⟩
    obtain ⟨after, hafter⟩ := exists_leaves hp rest
    rw [h.unique hp (hreads.leaves hafter)]
    exact List.prefix_append _ _

theorem Leaves.loses {p : α → Bool} {piece text out : List α}
    (hpiece : ∀ c ∈ piece, p c = true)
    (h : Leaves part (piece ++ text) out) {first rest : List α}
    (hsplit : piece = first ++ rest) (hne : rest ≠ [])
    (hstarts : Starts part (rest ++ text)) :
    out.countP p < piece.length + text.countP p := by
  induction piece generalizing out first with
  | nil =>
      rw [(List.append_eq_nil_iff.mp hsplit.symm).2] at hne
      exact absurd rfl hne
  | cons c piece ih =>
      have hcount : (piece ++ text).countP p =
          piece.length + text.countP p := by
        rw [List.countP_append, List.countP_eq_length.mpr fun d hd =>
          hpiece d (List.mem_cons_of_mem _ hd)]
      rw [List.cons_append] at h
      rw [List.length_cons]
      cases h with
      | take hnot hrest =>
          cases first with
          | nil =>
              rw [List.nil_append] at hsplit
              rw [← hsplit] at hstarts
              exact absurd hstarts hnot
          | cons d first =>
              rw [List.cons_append, List.cons.injEq] at hsplit
              have hless := ih (fun d hd => hpiece d (List.mem_cons_of_mem _ hd))
                hrest hsplit.2
              rw [List.countP_cons_of_pos (hpiece c (by simp))]
              omega
      | @skip _ behind _ hpart hrest =>
          have hbehind : behind <:+ piece ++ text := by
            rcases List.suffix_cons_iff.mp (hp.suffix hpart) with heq | hlater
            · have hless := hp.shorter hpart
              rw [heq] at hless
              omega
            · exact hlater
          have hle : out.countP p ≤ (piece ++ text).countP p :=
            ((hrest.sublist hp).trans hbehind.sublist).countP_le
          omega

end IsPart

/-! ## Two readers, one behind the other -/

/-- Parts of the first reader, and elsewhere those of another one. -/
def Either (part inner : List α → List α → Prop) (text rest : List α) : Prop :=
  part text rest ∨ ¬ Starts part text ∧ inner text rest

/--
`inner` describes in the text itself the parts that a second reader finds in
what the first one takes.
-/
structure SeenThrough (part outer inner : List α → List α → Prop) : Prop where
  seen : ∀ {text rest left}, inner text rest → Leaves part text left →
    ∃ left', Leaves part rest left' ∧ outer left left'
  starts : ∀ {text left}, Leaves part text left → Starts outer left →
    Starts inner text

theorem Either.isPart {inner : List α → List α → Prop} (hp : IsPart part)
    (hinner : IsPart inner) : IsPart (Either part inner) where
  unique := by
    rintro text rest rest' (hpart | ⟨hnot, hrest⟩) (hpart' | ⟨hnot', hrest'⟩)
    · exact hp.unique hpart hpart'
    · exact absurd ⟨_, hpart⟩ hnot'
    · exact absurd ⟨_, hpart'⟩ hnot
    · exact hinner.unique hrest hrest'
  suffix := by
    rintro text rest (hpart | ⟨-, hrest⟩)
    · exact hp.suffix hpart
    · exact hinner.suffix hrest
  shorter := by
    rintro text rest (hpart | ⟨-, hrest⟩)
    · exact hp.shorter hpart
    · exact hinner.shorter hrest

/-- Two readers in a row take what one reader takes that skips both parts. -/
theorem Leaves.compose {outer inner : List α → List α → Prop}
    (hp : IsPart part) (houter : IsPart outer) (hinner : IsPart inner)
    (hthrough : SeenThrough part outer inner) {text left out : List α}
    (hleft : Leaves part text left) (hout : Leaves outer left out) :
    Leaves (Either part inner) text out := by
  induction hlen : text.length using Nat.strong_induction_on
    generalizing text left out with
  | _ n ih =>
      by_cases hstarts : Starts part text
      · obtain ⟨rest, hpart⟩ := hstarts
        have hless := hp.shorter hpart
        apply Leaves.skip (.inl hpart)
        exact ih _ (by omega) ((leaves_skip_iff hp hpart).mp hleft) hout rfl
      by_cases hstarts' : Starts inner text
      · obtain ⟨rest, hrest⟩ := hstarts'
        have hless := hinner.shorter hrest
        obtain ⟨left', hleft', hskipped⟩ := hthrough.seen hrest hleft
        apply Leaves.skip (.inr ⟨hstarts, hrest⟩)
        exact ih _ (by omega) hleft'
          ((leaves_skip_iff houter hskipped).mp hout) rfl
      have hneither : ¬ Starts (Either part inner) text := by
        rintro ⟨rest, hpart | ⟨-, hrest⟩⟩
        · exact hstarts ⟨rest, hpart⟩
        · exact hstarts' ⟨rest, hrest⟩
      have hnot : ¬ Starts outer left := fun h =>
        hstarts' (hthrough.starts hleft h)
      cases hleft with
      | nil =>
          cases hout with
          | nil => exact .nil hneither
          | skip hpart => exact absurd ⟨_, hpart⟩ hnot
      | take _ hrest =>
          rw [List.length_cons] at hlen
          cases hout with
          | take _ hout => exact .take hneither (ih _ (by omega) hrest hout rfl)
          | skip hpart => exact absurd ⟨_, hpart⟩ hnot
      | skip hpart => exact absurd ⟨_, hpart⟩ hstarts

end MmHashChainSigs.Foundation.Skipping
