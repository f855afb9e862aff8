import Mathlib

/-!
# Hash chains over an arbitrary digest

A chain starts at a base digest and absorbs items one at a time: the item at
position `n`, counted from one, is encoded together with the digest before it
and hashed.  Two chains with the same final digest agree backwards from their
ends until one of them is exhausted, unless two different encodings have the
same digest.
-/

namespace MmHashChainSigs.Foundation.HashChain

variable {ι δ β : Type} (hash : ι → δ) (enc : δ → Nat → β → ι)

def chainFrom (digest : δ) (position : Nat) : List β → δ
  | [] => digest
  | item :: items =>
      chainFrom (hash (enc digest (position + 1) item)) (position + 1) items

def chain (base : δ) (items : List β) : δ := chainFrom hash enc base 0 items

def inputsFrom (digest : δ) (position : Nat) : List β → List ι
  | [] => []
  | item :: items =>
      enc digest (position + 1) item ::
        inputsFrom (hash (enc digest (position + 1) item)) (position + 1) items

def inputs (base : δ) (items : List β) : List ι :=
  inputsFrom hash enc base 0 items

private theorem chainFrom_concat (digest : δ) (position : Nat)
    (items : List β) (item : β) :
    chainFrom hash enc digest position (items ++ [item]) =
      hash (enc (chainFrom hash enc digest position items)
        (position + items.length + 1) item) := by
  induction items generalizing digest position with
  | nil => rfl
  | cons first items ih =>
      simp only [List.cons_append, chainFrom, ih, List.length_cons]
      rw [show position + 1 + items.length + 1 =
        position + (items.length + 1) + 1 by omega]

private theorem inputsFrom_concat (digest : δ) (position : Nat)
    (items : List β) (item : β) :
    inputsFrom hash enc digest position (items ++ [item]) =
      inputsFrom hash enc digest position items ++
        [enc (chainFrom hash enc digest position items)
          (position + items.length + 1) item] := by
  induction items generalizing digest position with
  | nil => rfl
  | cons first items ih =>
      simp only [List.cons_append, inputsFrom, chainFrom, ih,
        List.length_cons]
      rw [show position + 1 + items.length + 1 =
        position + (items.length + 1) + 1 by omega]

@[simp] theorem chain_nil (base : δ) : chain hash enc base [] = base := rfl

theorem chain_concat (base : δ) (items : List β) (item : β) :
    chain hash enc base (items ++ [item]) =
      hash (enc (chain hash enc base items) (items.length + 1) item) := by
  rw [chain, chainFrom_concat, Nat.zero_add]
  rfl

theorem inputs_concat (base : δ) (items : List β) (item : β) :
    inputs hash enc base (items ++ [item]) =
      inputs hash enc base items ++
        [enc (chain hash enc base items) (items.length + 1) item] := by
  rw [inputs, inputsFrom_concat, Nat.zero_add]
  rfl

theorem inputs_subset_append (base : δ) (items more : List β) :
    inputs hash enc base items ⊆ inputs hash enc base (items ++ more) := by
  induction more using List.reverseRecOn with
  | nil => simp
  | append_singleton more item ih =>
      rw [← List.append_assoc, inputs_concat]
      exact fun input h => List.mem_append_left _ (ih h)

theorem chain_good {good : δ → Prop} (hhash : ∀ input, good (hash input))
    {base : δ} (hbase : good base) (items : List β) :
    good (chain hash enc base items) := by
  induction items using List.reverseRecOn with
  | nil => exact hbase
  | append_singleton items item ih =>
      rw [chain_concat]
      exact hhash _

/-! ## Agreement of two chains with one final digest -/

def Collision (first second : List ι) : Prop :=
  ∃ x ∈ first, ∃ y ∈ second, x ≠ y ∧ hash x = hash y

variable {hash}

theorem Collision.mono {first first' second second' : List ι}
    (h : Collision hash first second) (hfirst : first ⊆ first')
    (hsecond : second ⊆ second') : Collision hash first' second' := by
  obtain ⟨x, hx, y, hy, hne, heq⟩ := h
  exact ⟨x, hfirst hx, y, hsecond hy, hne, heq⟩

/-- Both lists end with `common`, and one of them is nothing but `common`. -/
def SharedEnd {τ : Type} (hash : ι → δ) (enc : δ → Nat → β → ι)
    (tag : Nat → τ) (base base' : δ) (items items' : List β) : Prop :=
  ∃ before before' common,
    items = before ++ common ∧ items' = before' ++ common ∧
    chain hash enc base before = chain hash enc base' before' ∧
    (before = [] ∨ before' = []) ∧
    (common ≠ [] → tag (before.length + 1) = tag (before'.length + 1))

variable {enc} {τ : Type} {tag : Nat → τ} {good : δ → Prop}

theorem sharedEnd_or_collision
    (hhash : ∀ input, good (hash input))
    (henc : ∀ d d' m n b b', good d → good d' →
      enc d m b = enc d' n b' → d = d' ∧ tag m = tag n ∧ b = b')
    {base base' : δ} (hbase : good base) (hbase' : good base')
    {items items' : List β}
    (h : chain hash enc base items = chain hash enc base' items') :
    SharedEnd hash enc tag base base' items items' ∨
      Collision hash (inputs hash enc base items)
        (inputs hash enc base' items') := by
  induction items using List.reverseRecOn generalizing items' with
  | nil =>
      exact .inl ⟨[], items', [], rfl, by simp, h, .inl rfl, by simp⟩
  | append_singleton items item ih =>
      rcases List.eq_nil_or_concat' items' with rfl | ⟨items', item', rfl⟩
      · exact .inl ⟨items ++ [item], [], [], by simp, rfl, h, .inr rfl,
          by simp⟩
      rw [chain_concat, chain_concat] at h
      by_cases heq : enc (chain hash enc base items) (items.length + 1) item =
          enc (chain hash enc base' items') (items'.length + 1) item'
      · have hgood := chain_good hash enc hhash hbase items
        have hgood' := chain_good hash enc hhash hbase' items'
        obtain ⟨hdigest, htag, rfl⟩ := henc _ _ _ _ _ _ hgood hgood' heq
        rcases ih hdigest with hshared | hcollision
        · obtain ⟨before, before', common, rfl, rfl, hchain, hend, hcommon⟩ :=
            hshared
          refine .inl ⟨before, before', common ++ [item], by simp, by simp,
            hchain, hend, fun _ => ?_⟩
          by_cases hc : common = []
          · simpa [hc] using htag
          · exact hcommon hc
        · refine .inr (hcollision.mono ?_ ?_)
          · exact inputs_subset_append hash enc _ _ _
          · exact inputs_subset_append hash enc _ _ _
      · refine .inr ⟨_, ?_, _, ?_, heq, h⟩
        · rw [inputs_concat]
          exact List.mem_append_right _ (by simp)
        · rw [inputs_concat]
          exact List.mem_append_right _ (by simp)

theorem chain_eq_hash_input (hhash : ∀ input, good (hash input)) {base : δ}
    (hbase : good base) {items : List β} (hne : items ≠ []) :
    ∃ d n b, good d ∧ enc d n b ∈ inputs hash enc base items ∧
      chain hash enc base items = hash (enc d n b) := by
  obtain ⟨items, item, rfl⟩ := List.eq_nil_or_concat' items |>.resolve_left hne
  refine ⟨_, _, _, chain_good hash enc hhash hbase items, ?_,
    chain_concat hash enc base items item⟩
  rw [inputs_concat]
  exact List.mem_append_right _ (by simp)

/--
A chain that starts from the digest of a root string, which encodes no item,
and on which the tag of the first position does not come back, is determined
by its final digest among the chains with any other base.
-/
theorem eq_or_collision_of_root {root : ι} {base' : δ}
    (hhash : ∀ input, good (hash input))
    (henc : ∀ d d' m n b b', good d → good d' →
      enc d m b = enc d' n b' → d = d' ∧ tag m = tag n ∧ b = b')
    (hroot : ∀ d n b, good d → enc d n b ≠ root) (hbase' : good base')
    {items items' : List β} (hne : items ≠ []) (hne' : items' ≠ [])
    (htag : ∀ k, 0 < k → k < items.length → tag (k + 1) ≠ tag 1)
    (h : chain hash enc (hash root) items = chain hash enc base' items') :
    items = items' ∨
      Collision hash (root :: inputs hash enc (hash root) items)
        (inputs hash enc base' items') := by
  rcases sharedEnd_or_collision hhash henc (hhash root) hbase' h with
    hshared | hcollision
  · obtain ⟨before, before', common, rfl, rfl, hchain, hend, hcommon⟩ :=
      hshared
    by_cases hbefore : before = []
    · subst hbefore
      by_cases hbefore' : before' = []
      · exact .inl (by rw [hbefore'])
      · obtain ⟨d, n, b, hgood, hmem, hlast⟩ :=
          chain_eq_hash_input hhash hbase' hbefore'
        rw [hlast, chain_nil] at hchain
        exact .inr ⟨root, by simp, _, inputs_subset_append hash enc _ _ _ hmem,
          (hroot d n b hgood).symm, hchain⟩
    · obtain rfl := hend.resolve_left hbefore
      rw [List.nil_append] at hne'
      have hpos : 0 < before.length := List.length_pos_of_ne_nil hbefore
      have hlen : before.length < (before ++ common).length := by
        rw [List.length_append]
        have := List.length_pos_of_ne_nil hne'
        omega
      exact absurd (hcommon hne') (htag before.length hpos hlen)
  · exact .inr (hcollision.mono (List.subset_cons_self _ _)
      (List.Subset.refl _))

end MmHashChainSigs.Foundation.HashChain
